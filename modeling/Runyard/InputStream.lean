import Mathlib.Data.List.Basic

/-!
# Lines of an input stream

`std::getline` with the state of the stream. A stream that reaches its end while a line is read is
not good any more, also when the line is empty; so a loop that reads until the stream is not good
takes the parts between the delimiters, each once.
-/

universe u

structure InputStream (α : Type u) where
  /-- What has not been extracted. -/
  rest : List α
  eof : Bool := false
  fail : Bool := false

namespace InputStream

variable {α : Type u} [DecidableEq α]

def good (s : InputStream α) : Bool := !s.eof && !s.fail

/-- The characters before the delimiter, and what follows it when it is found. -/
def extract (delim : α) : List α → List α × Option (List α)
  | [] => ([], none)
  | c :: rest =>
    if c = delim then ([], some rest)
    else (c :: (extract delim rest).1, (extract delim rest).2)

/-- `std::getline`. A line of no characters that the end of the text ends is a failure; from a
stream that is not good nothing is read. -/
def getline (delim : α) (s : InputStream α) (line : List α) : InputStream α × List α :=
  if s.good then
    match extract delim s.rest with
    | (line, some rest) => ({ s with rest := rest }, line)
    | (line, none) => ({ rest := [], eof := true, fail := line.isEmpty }, line)
  else ({ s with fail := true }, line)

variable {delim : α} {text line rest : List α}

/-- What is extracted is the text up to the first delimiter. -/
theorem extract_text (delim : α) (text : List α) :
    delim ∉ (extract delim text).1 ∧
      text = (extract delim text).1 ++ ((extract delim text).2.map (delim :: ·)).getD [] := by
  induction text with
  | nil => exact ⟨List.not_mem_nil, rfl⟩
  | cons c text ih =>
    obtain ⟨absent, whole⟩ := ih
    rw [extract]
    split
    · next here =>
      subst here
      exact ⟨List.not_mem_nil, rfl⟩
    · next other =>
      constructor
      · exact List.not_mem_cons_of_ne_of_not_mem (Ne.symm other) absent
      · exact congrArg (c :: ·) whole

/-- A line that a delimiter ends leaves the stream good, with less to read. -/
theorem getline_cases (delim : α) {s : InputStream α} (ready : s.good) (before : List α) :
    (∃ line rest, getline delim s before = ({ s with rest := rest }, line) ∧
      s.rest.splitOn delim = line :: rest.splitOn delim ∧ rest.length < s.rest.length) ∨
    ∃ line, getline delim s before = (⟨[], true, line.isEmpty⟩, line) ∧
      s.rest.splitOn delim = [line] := by
  obtain ⟨absent, whole⟩ := extract_text delim s.rest
  rw [getline, if_pos ready]
  rcases hextract : extract delim s.rest with ⟨line, _ | rest⟩
  · rw [hextract] at absent whole
    refine .inr ⟨line, rfl, ?_⟩
    rw [whole, Option.map_none, Option.getD_none, List.append_nil]
    exact List.splitOn_eq_singleton absent
  · rw [hextract] at absent whole
    refine .inl ⟨line, rest, rfl, ?_, ?_⟩
    · rw [whole, Option.map_some, Option.getD_some]
      exact List.splitOn_append_cons_self_of_not_mem absent rest
    · rw [whole, Option.map_some, Option.getD_some, List.length_append, List.length_cons]
      omega

/-- A stream that is good after a read has become shorter. -/
theorem getline_shorter {s : InputStream α} {before : List α}
    (more : (getline delim s before).1.good) :
    (getline delim s before).1.rest.length < s.rest.length := by
  by_cases ready : s.good
  · rcases getline_cases delim ready before with
      ⟨line, rest, hread, _, shorter⟩ | ⟨line, hread, _⟩
    · rw [hread]
      exact shorter
    · rw [hread] at more
      simp [good] at more
  · rw [getline, if_neg ready] at more
    simp [good] at more

end InputStream
