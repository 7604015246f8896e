import Runyard.Entries
import Mathlib.Data.String.Basic

/-!
# JSON values

A JSON document as a tree with numbers of any type `ν`, the checked accessors of a JSON library
and the replacement of its numbers. An accessor that does not fit the value throws, and `Access`
carries the text of the exception. An object is an ordered map: the list of its fields with
ascending keys.
-/

universe u v w

namespace Except

variable {ε : Type u} {α β : Type v}

@[simp] theorem ok_bind (a : α) (f : α → Except ε β) : Except.ok a >>= f = f a := rfl

@[simp] theorem error_bind (e : ε) (f : α → Except ε β) :
    (Except.error e : Except ε α) >>= f = .error e := rfl

@[simp] theorem map_of_ok (f : α → β) (a : α) : f <$> (Except.ok a : Except ε α) = .ok (f a) := rfl

@[simp] theorem map_of_error (f : α → β) (e : ε) :
    f <$> (Except.error e : Except ε α) = .error e := rfl

@[simp] theorem pure_eq (a : α) : (pure a : Except ε α) = .ok a := rfl

@[simp] theorem throw_eq (e : ε) : (throw e : Except ε α) = .error e := rfl

theorem bind_eq_ok {x : Except ε α} {f : α → Except ε β} {b : β} :
    x >>= f = .ok b ↔ ∃ a, x = .ok a ∧ f a = .ok b := by
  cases x with
  | ok a => simp
  | error e => simp

theorem toOption_eq_some {x : Except ε α} {a : α} : x.toOption = some a ↔ x = .ok a := by
  cases x with
  | ok b => exact ⟨fun h => by cases h; rfl, fun h => by cases h; rfl⟩
  | error e => exact ⟨nofun, nofun⟩

/-- Renaming the exceptions keeps the results. -/
theorem mapError_eq_ok {ε' : Type w} {rename : ε → ε'} {x : Except ε α} {a : α} :
    x.mapError rename = .ok a ↔ x = .ok a := by
  cases x with
  | ok b => exact ⟨fun h => by cases h; rfl, fun h => by cases h; rfl⟩
  | error e => exact ⟨nofun, nofun⟩

variable {items : List α} {g : α → Except ε β}

theorem mapM_eq_ok {h : α → β} (each : ∀ a ∈ items, g a = .ok (h a)) :
    items.mapM g = .ok (items.map h) := by
  induction items with
  | nil => rfl
  | cons a rest ih =>
    rw [List.mapM_cons, each a List.mem_cons_self,
      ih fun b hb => each b (List.mem_cons_of_mem a hb)]
    rfl

/-- A map that checks its items keeps them all or fails. -/
theorem mapM_checked {checked : α → Prop} {h : α → β} {results : List β}
    (each : ∀ a b, g a = .ok b ↔ checked a ∧ b = h a) :
    items.mapM g = .ok results ↔ (∀ a ∈ items, checked a) ∧ results = items.map h := by
  induction items generalizing results with
  | nil => simp [eq_comm]
  | cons a rest ih =>
    rw [List.mapM_cons, bind_eq_ok, List.map_cons, List.forall_mem_cons]
    constructor
    · rintro ⟨b, hfirst, h⟩
      obtain ⟨rest', hrest, hresults⟩ := bind_eq_ok.mp h
      obtain ⟨ok, rfl⟩ := (each a b).mp hfirst
      obtain ⟨others, rfl⟩ := ih.mp hrest
      cases hresults
      exact ⟨⟨ok, others⟩, rfl⟩
    · rintro ⟨⟨ok, others⟩, rfl⟩
      refine ⟨h a, (each a _).mpr ⟨ok, rfl⟩, bind_eq_ok.mpr ⟨rest.map h, ?_, rfl⟩⟩
      exact ih.mpr ⟨others, rfl⟩

/-- Every item has a result. -/
theorem mapM_mem {results : List β} {a : α} (h : items.mapM g = .ok results) (ha : a ∈ items) :
    ∃ b ∈ results, g a = .ok b := by
  induction items generalizing results with
  | nil => cases ha
  | cons a' rest ih =>
    rw [List.mapM_cons, bind_eq_ok] at h
    obtain ⟨b, hfirst, h⟩ := h
    obtain ⟨rest', hrest, h⟩ := bind_eq_ok.mp h
    cases h
    rcases List.mem_cons.mp ha with rfl | ha
    · exact ⟨b, List.mem_cons_self, hfirst⟩
    · obtain ⟨b', hb', hvalue⟩ := ih hrest ha
      exact ⟨b', List.mem_cons_of_mem b hb', hvalue⟩

theorem mapM_total : (∃ results, items.mapM g = .ok results) ↔ ∀ a ∈ items, ∃ b, g a = .ok b := by
  constructor
  · rintro ⟨results, h⟩ a ha
    obtain ⟨b, -, hb⟩ := mapM_mem h ha
    exact ⟨b, hb⟩
  · intro each
    induction items with
    | nil => exact ⟨[], rfl⟩
    | cons a rest ih =>
      obtain ⟨b, hb⟩ := each a List.mem_cons_self
      obtain ⟨results, hrest⟩ := ih fun a' ha' => each a' (List.mem_cons_of_mem a ha')
      refine ⟨b :: results, ?_⟩
      rw [List.mapM_cons, hb, hrest]
      rfl

/-- Results that agree with the items as a list agree with them one by one. -/
theorem mapM_pointwise {γ : Type v} {results : List β} {image : β → γ} {expected : α → γ}
    (h : items.mapM g = .ok results) (same : results.map image = items.map expected) :
    ∀ a ∈ items, ∃ b, g a = .ok b ∧ image b = expected a := by
  induction items generalizing results with
  | nil => exact fun a ha => nomatch ha
  | cons a rest ih =>
    rw [List.mapM_cons, bind_eq_ok] at h
    obtain ⟨b, hfirst, h⟩ := h
    obtain ⟨rest', hrest, h⟩ := bind_eq_ok.mp h
    cases h
    obtain ⟨hhead, htail⟩ := List.cons.inj same
    intro a' ha'
    rcases List.mem_cons.mp ha' with rfl | ha'
    · exact ⟨b, hfirst, hhead⟩
    · exact ih hrest htail a' ha'

/-- What the results keep of their items, they keep as a list. -/
theorem mapM_map {α γ : Type w} {items : List α} {g : α → Except ε β} {results : List β}
    {image : β → γ} {kept : α → γ} (h : items.mapM g = .ok results)
    (each : ∀ a b, g a = .ok b → image b = kept a) :
    results.map image = items.map kept := by
  induction items generalizing results with
  | nil =>
    cases h
    rfl
  | cons a rest ih =>
    rw [List.mapM_cons, bind_eq_ok] at h
    obtain ⟨b, hfirst, h⟩ := h
    obtain ⟨rest', hrest, h⟩ := bind_eq_ok.mp h
    cases h
    rw [List.map_cons, List.map_cons, each a b hfirst, ih hrest]

/-- Every result comes from an item. -/
theorem mem_mapM {results : List β} {b : β} (h : items.mapM g = .ok results) (hb : b ∈ results) :
    ∃ a ∈ items, g a = .ok b := by
  induction items generalizing results with
  | nil =>
    cases h
    cases hb
  | cons a rest ih =>
    rw [List.mapM_cons, bind_eq_ok] at h
    obtain ⟨b', hfirst, h⟩ := h
    obtain ⟨rest', hrest, h⟩ := bind_eq_ok.mp h
    cases h
    rcases List.mem_cons.mp hb with rfl | hb
    · exact ⟨a, List.mem_cons_self, hfirst⟩
    · obtain ⟨a', ha', hvalue⟩ := ih hrest hb
      exact ⟨a', List.mem_cons_of_mem a ha', hvalue⟩

end Except

inductive Json (ν : Type u) : Type u where
  | null
  | boolean (value : Bool)
  | number (value : ν)
  | string (value : String)
  | array (items : List (Json ν))
  | object (fields : List (String × Json ν))

namespace Json

variable {ν : Type u} {α : Type v}

/-- The object that an initializer list or a sequence of assignments builds. -/
def ofFields (fields : List (String × Json ν)) : Json ν := .object (Entries.collect fields)

/-- The value that an accessor returns, or the text of the exception. -/
abbrev Access (α : Type v) := Except String α

def typeName : Json ν → String
  | .null => "null"
  | .boolean _ => "boolean"
  | .number _ => "number"
  | .string _ => "string"
  | .array _ => "array"
  | .object _ => "object"

def isObject : Json ν → Bool
  | .object _ => true
  | _ => false

/-- A condition on a number, false of any other value. -/
def isNumber (condition : ν → Bool) : Json ν → Bool
  | .number n => condition n
  | _ => false

theorem isNumber_iff {condition : ν → Bool} {j : Json ν} :
    j.isNumber condition ↔ ∃ n, j = .number n ∧ condition n := by
  cases j <;> simp [isNumber]

/-- What a range-based `for` visits: a value that is no collection is visited itself. -/
def elements : Json ν → List (Json ν)
  | .null => []
  | .array items => items
  | .object fields => fields.map (·.2)
  | j => [j]

/-- `contains` and the field itself. -/
def find? (key : String) : Json ν → Option (Json ν)
  | .object fields => (fields.find? fun field => field.1 = key).map (·.2)
  | _ => none

/-- `operator[](key)`: a field that is missing becomes null. -/
def item (key : String) (j : Json ν) : Json ν := (j.find? key).getD .null

/-- `operator[](i)` of an array or of null. -/
def element (i : Nat) : Json ν → Json ν
  | .array items => (items[i]?).getD .null
  | _ => .null

/-- The value at the end of a path of keys. -/
def path? (path : List String) (j : Json ν) : Option (Json ν) :=
  path.foldlM (fun j key => j.find? key) j

/-- `get<T>()` for a value of another type. -/
def mismatch (expected : String) (j : Json ν) : Access α :=
  .error ("[json.exception.type_error.302] type must be " ++ expected ++ ", but is " ++ j.typeName)

/-- `at(key)`. -/
def field (key : String) (j : Json ν) : Access (Json ν) :=
  if j.isObject then
    match j.find? key with
    | some value => .ok value
    | none => .error ("[json.exception.out_of_range.403] key '" ++ key ++ "' not found")
  else .error ("[json.exception.type_error.304] cannot use at() with " ++ j.typeName)

/-- `operator[](key)` of a constant value. -/
def constItem (key : String) (j : Json ν) : Access (Json ν) :=
  if j.isObject then .ok (j.item key)
  else .error ("[json.exception.type_error.305] cannot use operator[] with a string argument " ++
    "with " ++ j.typeName)

theorem field_cases (key : String) (j : Json ν) :
    (∃ value, j.find? key = some value ∧ j.field key = .ok value) ∨
      j.find? key = none ∧ ∃ what, j.field key = .error what := by
  cases hfind : j.find? key with
  | some value =>
    have hobject : j.isObject := by cases j <;> simp_all [find?, isObject]
    exact .inl ⟨value, rfl, by rw [field, if_pos hobject, hfind]⟩
  | none =>
    refine .inr ⟨rfl, ?_⟩
    rw [field, hfind]
    split
    · exact ⟨_, rfl⟩
    · exact ⟨_, rfl⟩

def getString : Json ν → Access String
  | .string s => .ok s
  | j => j.mismatch "string"

def getBoolean : Json ν → Access Bool
  | .boolean b => .ok b
  | j => j.mismatch "boolean"

/-- `get<T>()` for a numeric type. -/
def getNumber (convert : ν → α) : Json ν → Access α
  | .number n => .ok (convert n)
  | j => j.mismatch "number"

/-- `get<std::vector<std::string>>()`. -/
def getStrings : Json ν → Access (List String)
  | .array items => items.mapM getString
  | j => j.mismatch "array"

/-- The entries of `get<std::map<std::string, std::string>>()`. -/
def getEntries : Json ν → Access (List (String × String))
  | .object fields => fields.mapM fun field => return (field.1, ← getString field.2)
  | j => j.mismatch "object"

/-- `value(key, fallback)`: a field that is present has to have the type. -/
def valueOr (key : String) (fallback : α) (get : Json ν → Access α) (j : Json ν) : Access α :=
  if j.isObject then
    match j.find? key with
    | some value => get value
    | none => .ok fallback
  else .error ("[json.exception.type_error.306] cannot use value() with " ++ j.typeName)

@[simp] theorem find?_object (key : String) (fields : List (String × Json ν)) :
    (Json.object fields).find? key = Entries.lookup key fields := rfl

@[simp] theorem path?_nil (j : Json ν) : j.path? [] = some j := rfl

@[simp] theorem path?_cons (key : String) (path : List String) (j : Json ν) :
    j.path? (key :: path) = (j.find? key).bind (·.path? path) := rfl

theorem find?_getD (key : String) (j : Option (Json ν)) :
    (j.getD (.object [])).find? key = j.bind (·.find? key) := by
  cases j <;> rfl

theorem isObject_of_find? {key : String} {j value : Json ν} (h : j.find? key = some value) :
    j.isObject := by
  cases j with
  | object fields => rfl
  | null | boolean | number | string | array => cases h

theorem field_ok {key : String} {j value : Json ν} :
    j.field key = .ok value ↔ j.find? key = some value := by
  rcases j.field_cases key with ⟨found, hfind, h⟩ | ⟨hfind, what, h⟩
  · rw [h, hfind]
    simp
  · rw [h, hfind]
    simp

theorem getString_ok {j : Json ν} {s : String} : j.getString = .ok s ↔ j = .string s := by
  cases j <;> simp [getString, mismatch]

theorem getStrings_ok {j : Json ν} {strings : List String} :
    j.getStrings = .ok strings ↔ j = .array (strings.map .string) := by
  constructor
  · intro h
    cases j with
    | array items =>
      have read : items.mapM getString = .ok strings := h
      have kept : strings.map Json.string = items.map id :=
        Except.mapM_map read fun j s hs => (getString_ok.mp hs).symm
      rw [kept, List.map_id]
    | null | boolean | number | string | object => cases h
  · rintro rfl
    rw [getStrings, List.mapM_map]
    have each : strings.mapM (fun s => (Json.string s : Json ν).getString) =
        .ok (strings.map id) := Except.mapM_eq_ok fun s _ => rfl
    rwa [List.map_id] at each

theorem strings_inj {strings others : List String}
    (h : (array (strings.map string) : Json ν) = array (others.map string)) : strings = others := by
  injection h with h
  exact (List.map_inj_right fun s t hst => by injection hst).mp h

/-- A read that falls back where the field is missing. -/
theorem valueOr_ok {key : String} {fallback a : α} {get : Json ν → Access α} {j : Json ν} :
    j.valueOr key fallback get = .ok a ↔ j.isObject ∧
      ((∃ value, j.find? key = some value ∧ get value = .ok a) ∨
        j.find? key = none ∧ fallback = a) := by
  rw [valueOr]
  cases hobject : j.isObject with
  | true => cases j.find? key <;> simp
  | false => simp

theorem valueOr_getD {key : String} {fallback value j : Json ν}
    (h : j.valueOr key fallback .ok = .ok value) : (j.find? key).getD fallback = value := by
  rcases (valueOr_ok.mp h).2 with ⟨found, hfound, ⟨⟩⟩ | ⟨missing, rfl⟩
  · rw [hfound, Option.getD_some]
  · rw [missing, Option.getD_none]

/-- A field that may be missing, taken as it is. -/
theorem valueOr_object {key : String} {fallback j : Json ν} (h : j.isObject) :
    j.valueOr key fallback .ok = .ok ((j.find? key).getD fallback) := by
  rw [valueOr, if_pos h]
  cases j.find? key <;> rfl

theorem find?_ofFields (key : String) {fields : List (String × Json ν)}
    (distinct : (fields.map (·.1)).Nodup) :
    (ofFields fields).find? key = Entries.lookup key fields :=
  Entries.lookup_collect_of_nodup distinct

/-! ## Equality -/

section Equal

mutual

/-- `operator==`, where numbers of different kinds may be the same. -/
def equal (same : ν → ν → Bool) : Json ν → Json ν → Bool
  | .null, .null => true
  | .boolean a, .boolean b => a = b
  | .number m, .number n => same m n
  | .string s, .string t => s = t
  | .array items, .array others => equalItems same items others
  | .object fields, .object others => equalFields same fields others
  | _, _ => false

def equalItems (same : ν → ν → Bool) : List (Json ν) → List (Json ν) → Bool
  | [], [] => true
  | j :: rest, j' :: rest' => equal same j j' && equalItems same rest rest'
  | _, _ => false

def equalFields (same : ν → ν → Bool) :
    List (String × Json ν) → List (String × Json ν) → Bool
  | [], [] => true
  | (key, j) :: rest, (key', j') :: rest' =>
    key = key' && equal same j j' && equalFields same rest rest'
  | _, _ => false

end

variable {same : ν → ν → Bool}

@[simp] theorem equal_string {j : Json ν} {s : String} :
    j.equal same (.string s) ↔ j = .string s := by
  cases j <;> simp [equal]

@[simp] theorem equal_array {j : Json ν} {others : List (Json ν)} :
    j.equal same (.array others) ↔ ∃ items, j = .array items ∧ equalItems same items others := by
  cases j <;> simp [equal]

@[simp] theorem equalItems_nil {items : List (Json ν)} :
    equalItems same items [] ↔ items = [] := by
  cases items <;> simp [equalItems]

@[simp] theorem equalItems_cons {items others : List (Json ν)} {j : Json ν} :
    equalItems same items (j :: others) ↔
      ∃ j' rest, items = j' :: rest ∧ j'.equal same j ∧ equalItems same rest others := by
  cases items <;> simp [equalItems]

end Equal

/-! ## Induction over a document -/

section Induction

variable {motive : Json ν → Prop} (null : motive .null) (boolean : ∀ b, motive (.boolean b))
  (number : ∀ n, motive (.number n)) (string : ∀ s, motive (.string s))
  (array : ∀ items, (∀ j ∈ items, motive j) → motive (.array items))
  (object : ∀ fields, (∀ e ∈ fields, motive e.2) → motive (.object fields))

include null boolean number string array object in
@[elab_as_elim]
theorem induct : ∀ j, motive j
  | .null => null
  | .boolean b => boolean b
  | .number n => number n
  | .string s => string s
  | .array items => array items fun j _ => induct j
  | .object fields => object fields fun e he =>
    have smaller : sizeOf e.2 < 1 + sizeOf fields := by
      have hfields := List.sizeOf_lt_of_mem he
      have hvalue : sizeOf e = 1 + sizeOf e.1 + sizeOf e.2 := by cases e; rfl
      omega
    induct e.2

end Induction

/-! ## Replacing numbers -/

section Bind

variable {μ : Type v} {ξ : Type w}

mutual

/-- The document with a document in the place of every number. -/
def bind (f : ν → Json μ) : Json ν → Json μ
  | .null => .null
  | .boolean b => .boolean b
  | .number n => f n
  | .string s => .string s
  | .array items => .array (bindItems f items)
  | .object fields => .object (bindFields f fields)

def bindItems (f : ν → Json μ) : List (Json ν) → List (Json μ)
  | [] => []
  | j :: rest => j.bind f :: bindItems f rest

def bindFields (f : ν → Json μ) : List (String × Json ν) → List (String × Json μ)
  | [] => []
  | (key, value) :: rest => (key, value.bind f) :: bindFields f rest

end

def map (f : ν → μ) (j : Json ν) : Json μ := j.bind fun n => .number (f n)

variable {f : ν → Json μ}

@[simp] theorem bind_null : (Json.null : Json ν).bind f = .null := rfl

@[simp] theorem bind_boolean (b : Bool) : (Json.boolean b : Json ν).bind f = .boolean b := rfl

@[simp] theorem bind_number (n : ν) : (Json.number n).bind f = f n := rfl

@[simp] theorem bind_string (s : String) : (Json.string s : Json ν).bind f = .string s := rfl

@[simp] theorem bind_array (items : List (Json ν)) :
    (Json.array items).bind f = .array (items.map (bind f)) := by
  have each : bindItems f items = items.map (bind f) := by
    induction items with
    | nil => rfl
    | cons j rest ih => rw [bindItems, ih, List.map_cons]
  rw [bind, each]

@[simp] theorem bind_object (fields : List (String × Json ν)) :
    (Json.object fields).bind f = .object (fields.map fun e => (e.1, e.2.bind f)) := by
  have each : bindFields f fields = fields.map fun e => (e.1, e.2.bind f) := by
    induction fields with
    | nil => rfl
    | cons e rest ih => rw [bindFields, ih, List.map_cons]
  rw [bind, each]

@[simp] theorem bind_ofFields (fields : List (String × Json ν)) :
    (ofFields fields).bind f = ofFields (fields.map fun e => (e.1, e.2.bind f)) := by
  rw [ofFields, bind_object, ofFields, Entries.collect_map]

theorem bind_number_self (j : Json ν) : j.bind .number = j := by
  induction j using induct with
  | null | boolean | number | string => rfl
  | array items ih => rw [bind_array, List.map_congr_left ih, List.map_id']
  | object fields ih =>
    rw [bind_object, List.map_congr_left fun e he => by rw [ih e he], List.map_id']

theorem map_id (j : Json ν) : j.map id = j := j.bind_number_self

theorem bind_bind (g : μ → Json ξ) (j : Json ν) :
    (j.bind f).bind g = j.bind fun n => (f n).bind g := by
  induction j using induct with
  | null | boolean | number | string => rfl
  | array items ih =>
    rw [bind_array, bind_array, bind_array, List.map_map]
    exact congrArg _ (List.map_congr_left ih)
  | object fields ih =>
    rw [bind_object, bind_object, bind_object, List.map_map]
    exact congrArg _ (List.map_congr_left fun e he => congrArg _ (ih e he))

theorem map_bind (g : μ → ξ) (j : Json ν) :
    (j.bind f).map g = j.bind fun n => (f n).map g :=
  bind_bind _ j

end Bind

/-! ## Well-formed documents -/

/-- Every object is an ordered map, and numbers and texts meet the conditions. -/
inductive Valid (number : ν → Prop) (text : String → Prop) : Json ν → Prop
  | null : Valid number text .null
  | boolean (b : Bool) : Valid number text (.boolean b)
  | number {n : ν} (h : number n) : Valid number text (.number n)
  | string {s : String} (h : text s) : Valid number text (.string s)
  | array {items : List (Json ν)} (each : ∀ j ∈ items, Valid number text j) :
      Valid number text (.array items)
  | object {fields : List (String × Json ν)} (ascending : Entries.Ascending fields)
      (names : ∀ e ∈ fields, text e.1) (each : ∀ e ∈ fields, Valid number text e.2) :
      Valid number text (.object fields)

namespace Valid

variable {μ : Type v} {number : ν → Prop} {number' : μ → Prop} {text text' : String → Prop}
  {j : Json ν}

theorem mono (weaker : ∀ s, text s → text' s) (h : j.Valid number text) :
    j.Valid number text' := by
  induction h with
  | null => exact .null
  | boolean b => exact .boolean b
  | number h => exact .number h
  | string h => exact .string (weaker _ h)
  | array _ ih => exact .array ih
  | object ascending names _ ih => exact .object ascending (fun e he => weaker _ (names e he)) ih

theorem single {key : String} {value : Json ν} (name : text key) (h : value.Valid number text) :
    (Json.object [(key, value)]).Valid number text :=
  .object (List.pairwise_singleton ..) (by simpa using name) (by simpa using h)

theorem pair {key key' : String} {value value' : Json ν} (before : key < key') (name : text key)
    (name' : text key') (h : value.Valid number text) (h' : value'.Valid number text) :
    (Json.object [(key, value), (key', value')]).Valid number text :=
  .object (by simpa [Entries.Ascending] using before) (by simpa using ⟨name, name'⟩)
    (by simpa using ⟨h, h'⟩)

theorem ofFields {fields : List (String × Json ν)} (names : ∀ e ∈ fields, text e.1)
    (each : ∀ e ∈ fields, e.2.Valid number text) : (Json.ofFields fields).Valid number text :=
  .object Entries.ascending_collect (fun e he => names e (Entries.mem_collect he))
    fun e he => each e (Entries.mem_collect he)

theorem bind {f : ν → Json μ} (each : ∀ n, number n → (f n).Valid number' text)
    (h : j.Valid number text) : (j.bind f).Valid number' text := by
  induction h with
  | null => exact .null
  | boolean b => exact .boolean b
  | number h => exact each _ h
  | string h => exact .string h
  | array _ ih =>
    rw [bind_array]
    exact .array (List.forall_mem_map.mpr ih)
  | object ascending names _ ih =>
    rw [bind_object]
    exact .object (List.pairwise_map.mpr ascending) (List.forall_mem_map.mpr names)
      (List.forall_mem_map.mpr ih)

/-- Only the numbers that occur matter. -/
theorem bind_congr {f g : ν → Json μ} (same : ∀ n, number n → f n = g n)
    (h : j.Valid number text) : j.bind f = j.bind g := by
  induction h with
  | null => rfl
  | boolean b => rfl
  | number h => exact same _ h
  | string h => rfl
  | array _ ih => rw [bind_array, bind_array, List.map_congr_left ih]
  | object _ _ _ ih =>
    rw [bind_object, bind_object, List.map_congr_left fun e he => congrArg _ (ih e he)]

end Valid

mutual

/-- Conditions on every number and on every text, keys included. -/
def all (number : ν → Bool) (text : String → Bool) : Json ν → Bool
  | .number n => number n
  | .string s => text s
  | .array items => allItems number text items
  | .object fields => allFields number text fields
  | _ => true

def allItems (number : ν → Bool) (text : String → Bool) : List (Json ν) → Bool
  | [] => true
  | j :: rest => j.all number text && allItems number text rest

def allFields (number : ν → Bool) (text : String → Bool) : List (String × Json ν) → Bool
  | [] => true
  | (key, value) :: rest => (text key && value.all number text) && allFields number text rest

end

section All

variable {number : ν → Bool} {text : String → Bool}

theorem all_array {items : List (Json ν)} :
    (Json.array items).all number text ↔ ∀ j ∈ items, j.all number text := by
  have each : allItems number text items = items.all fun j => j.all number text := by
    induction items with
    | nil => rfl
    | cons j rest ih => rw [allItems, ih, List.all_cons]
  rw [all, each, List.all_eq_true]

theorem all_object {fields : List (String × Json ν)} :
    (Json.object fields).all number text ↔ ∀ e ∈ fields, text e.1 ∧ e.2.all number text := by
  have each : allFields number text fields =
      fields.all fun e => text e.1 && e.2.all number text := by
    induction fields with
    | nil => rfl
    | cons e rest ih => rw [allFields, ih, List.all_cons]
  rw [all, each, List.all_eq_true]
  exact forall₂_congr fun e _ => Bool.and_eq_true_iff

theorem all_field {key : String} {j value : Json ν} (h : j.all number text)
    (hvalue : j.field key = .ok value) : value.all number text := by
  rcases field_cases key j with ⟨found, hfind, hfield⟩ | ⟨_, _, hfield⟩
  · rw [hfield] at hvalue
    cases hvalue
    cases j with
    | object fields => exact (all_object.mp h _ (Entries.mem_of_lookup hfind)).2
    | _ => cases hfind
  · rw [hfield] at hvalue
    cases hvalue

theorem Valid.all {j : Json ν} (h : j.Valid (fun n => number n) fun s => text s) :
    j.all number text := by
  induction h with
  | null => rfl
  | boolean b => rfl
  | number h => exact h
  | string h => exact h
  | array _ ih => exact all_array.mpr ih
  | object _ names _ ih => exact all_object.mpr fun e he => ⟨names e he, ih e he⟩

end All

mutual

/-- The document that a parser builds: every object is collected into an ordered map. -/
def settle : Json ν → Json ν
  | .array items => .array (settleItems items)
  | .object fields => .object (Entries.collect (settleFields fields))
  | j => j

def settleItems : List (Json ν) → List (Json ν)
  | [] => []
  | j :: rest => j.settle :: settleItems rest

def settleFields : List (String × Json ν) → List (String × Json ν)
  | [] => []
  | (key, value) :: rest => (key, value.settle) :: settleFields rest

end

@[simp] theorem settle_array (items : List (Json ν)) :
    (Json.array items).settle = .array (items.map settle) := by
  have each : settleItems items = items.map settle := by
    induction items with
    | nil => rfl
    | cons j rest ih => rw [settleItems, ih, List.map_cons]
  rw [settle, each]

@[simp] theorem settle_object (fields : List (String × Json ν)) :
    (Json.object fields).settle =
      .object (Entries.collect (fields.map fun e => (e.1, e.2.settle))) := by
  have each : settleFields fields = fields.map fun e => (e.1, e.2.settle) := by
    induction fields with
    | nil => rfl
    | cons e rest ih => rw [settleFields, ih, List.map_cons]
  rw [settle, each]

theorem Valid.settle_eq {number : ν → Prop} {text : String → Prop} {j : Json ν}
    (h : j.Valid number text) : j.settle = j := by
  induction h with
  | null | boolean | number | string => rfl
  | array _ ih => rw [settle_array, List.map_congr_left ih, List.map_id']
  | object ascending _ _ ih =>
    rw [settle_object, List.map_congr_left fun e he => by rw [ih e he], List.map_id',
      ascending.collect_eq]

end Json
