import Runyard.Capacity.Placement
import Runyard.Run.Lifetime
import Mathlib.Algebra.Order.BigOperators.Group.List

/-!
# Reservation safety

What `assign` and `admitKubernetes` have reserved stays within the registered capacity and
within the admission limit, because an attempt counts until its cleanup is done.
-/

namespace Runyard

/-- What the worker's pending attempts have reserved is within its registered capacity. -/
def Ledger.Fits (l : Ledger) (w : WorkerRow) : Prop :=
  l.reserved w.id (·.cpuMillis) ≤ w.cpuMillis ∧ l.reserved w.id (·.memoryMib) ≤ w.memoryMib

/-- Some attempt of the next ledger is new. -/
def Ledger.Creates (l l' : Ledger) : Prop :=
  ∃ a' ∈ l'.attempts, ∀ a ∈ l.attempts, a.id ≠ a'.id

instance (l l' : Ledger) : Decidable (l.Creates l') :=
  inferInstanceAs (Decidable (∃ a' ∈ l'.attempts, ∀ a ∈ l.attempts, a.id ≠ a'.id))

/-- The transaction does not lower the capacity of a registered worker. -/
def KeepsCapacity (s : PostgresStore.State) (e : PostgresStore.Event) : Prop :=
  ∀ id session capacity gpu, e.op = .registerWorker id session capacity gpu →
    ∀ w, s.db.worker? id = some w →
      w.cpuMillis ≤ capacity.cpuMillis ∧ w.memoryMib ≤ capacity.memoryMib

/-- Admissions to Kubernetes use one limit. -/
def AdmitsUpTo (limit : Nat) (_ : PostgresStore.State) (e : PostgresStore.Event) : Prop :=
  ∀ attempt locked maxActive, e.op = .admitKubernetes attempt locked maxActive →
    maxActive = limit

/-- A column that the lifecycle of a run does not touch. -/
def Fixed (column : RunRow → Int) : Prop :=
  ∀ r r' : RunRow, r.SameIdentity r' → column r' = column r

theorem fixed_cpu : Fixed (·.cpuMillis) := fun _ _ same => same.cpuMillis

theorem fixed_memory : Fixed (·.memoryMib) := fun _ _ same => same.memoryMib

def Placement.counts (worker : String) (a : Placement) : Bool :=
  a.workerId = worker && a.cleanupStatus = .pending

def Journal.cost (j : Journal) (column : RunRow → Int) (run : String) : Int :=
  ((j.run? run).map column).getD 0

theorem Journal.reserved_eq (j : Journal) (worker : String) (column : RunRow → Int) :
    j.reserved worker column =
      ((j.placements.filter (·.counts worker)).map fun a => j.cost column a.runId).sum := by
  simp [reserved, placements, List.filter_map, Function.comp_def, Placement.counts, cost]

theorem Journal.admitted_length (j : Journal) :
    j.admitted.length = (j.placements.filter (·.counts kubernetesWorker)).length := by
  simp [admitted, placements, List.filter_map, Function.comp_def, Placement.counts]

theorem Ledger.creates_of_placement {l l' : Ledger} {row : Placement}
    (placements : l'.placements = l.placements ++ [row])
    (fresh : ∀ a ∈ l.attempts, a.id ≠ row.id) : l.Creates l' := by
  have hrow : row ∈ l'.placements := by simp [placements]
  obtain ⟨a', ha', rfl⟩ := List.mem_map.mp hrow
  exact ⟨a', ha', fresh⟩

/-- Cleaning a placement takes it out of the count. -/
theorem filter_clean_sublist (worker : String) (a : Placement) (rows : List Placement) :
    ((Table.replace (·.id) a.clean rows).filter (·.counts worker)).Sublist
      (rows.filter (·.counts worker)) := by
  induction rows with
  | nil => exact .slnil
  | cons b rest ih =>
    have hcons : Table.replace (·.id) a.clean (b :: rest) =
        (if b.id = a.id then a.clean else b) :: Table.replace (·.id) a.clean rest := by
      simp [Table.replace]
    rw [hcons]
    by_cases hid : b.id = a.id
    · have hclean : a.clean.counts worker = false := by simp [Placement.counts]
      rw [if_pos hid, List.filter_cons_of_neg (by simp [hclean])]
      exact ih.trans ((List.sublist_cons_self b rest).filter _)
    · rw [if_neg hid]
      by_cases hcounts : b.counts worker
      · rw [List.filter_cons_of_pos hcounts, List.filter_cons_of_pos hcounts]
        exact ih.cons_cons b
      · rw [List.filter_cons_of_neg hcounts, List.filter_cons_of_neg hcounts]
        exact ih

section Effects

variable {p : PostgresStore} {now : Int} {l l' : Ledger} {op : Op} {column : RunRow → Int}

theorem Effect.cost_kept (wf : l.WellFormed) (fixed : Fixed column)
    (effect : Effect p now l op l') {a : Placement} (ha : a ∈ l.placements) :
    l'.cost column a.runId = l.cost column a.runId := by
  obtain ⟨b, hb, rfl⟩ := List.mem_map.mp ha
  obtain ⟨r, hr, hrun⟩ := wf.attemptRun b hb
  have found : l.run? b.runId = some r := hrun ▸ wf.runs.lookup hr
  obtain ⟨r', found', same⟩ := effect.run_kept wf found
  simp [Journal.cost, found, found', fixed r r' same]

theorem cost_nonneg (seated : l.Seated) (positive : ∀ r ∈ l.runs, r.Demand → 0 ≤ column r)
    (run : String) : 0 ≤ l.cost column run := by
  unfold Journal.cost
  cases h : l.run? run with
  | none => simp
  | some r =>
    have hr := (Table.lookup_mem h).1
    simpa using positive r hr (seated.demand r hr)

theorem Effect.costs_kept (wf : l.WellFormed) (fixed : Fixed column)
    (effect : Effect p now l op l') {rows : List Placement} (hrows : rows.Sublist l.placements) :
    (rows.map fun a => l'.cost column a.runId) = rows.map fun a => l.cost column a.runId :=
  List.map_congr_left fun _ ha => effect.cost_kept wf fixed (hrows.subset ha)

/-- A new placement of the run `r` adds its cost. -/
theorem Effect.reserved_placed (wf : l.WellFormed) (fixed : Fixed column)
    (effect : Effect p now l op l') {row : Placement} {r : RunRow}
    (run : l.run? row.runId = some r) (pending : row.cleanupStatus = .pending)
    (placements : l'.placements = l.placements ++ [row]) :
    l'.reserved row.workerId column = l.reserved row.workerId column + column r := by
  obtain ⟨r', found', sameRun⟩ := effect.run_kept wf run
  have hcost : l'.cost column row.runId = column r := by
    simp [Journal.cost, found', fixed r r' sameRun]
  rw [Journal.reserved_eq, Journal.reserved_eq, placements, List.filter_append, List.map_append,
    List.sum_append, effect.costs_kept wf fixed List.filter_sublist]
  simp [Placement.counts, pending, hcost]

/-- Reservations of one worker across an effect: unchanged, released, or raised by an
assignment to that worker. -/
theorem Effect.reserved_le (wf : l.WellFormed) (seated : l.Seated) (fixed : Fixed column)
    (positive : ∀ r ∈ l.runs, r.Demand → 0 ≤ column r) (effect : Effect p now l op l')
    {worker : String} (docker : worker ≠ kubernetesWorker) :
    l'.reserved worker column ≤ l.reserved worker column ∨
    ∃ attempt locked session, op = .assign attempt locked worker session ∧ l.Creates l' := by
  have same : ∀ extra : List Placement, l'.placements = l.placements ++ extra →
      extra.filter (·.counts worker) = [] →
      l'.reserved worker column ≤ l.reserved worker column := by
    intro extra hplacements hextra
    rw [Journal.reserved_eq, Journal.reserved_eq, hplacements, List.filter_append, hextra,
      List.append_nil, effect.costs_kept wf fixed List.filter_sublist]
  have cleaned : ∀ a : Placement,
      l'.placements = Table.replace (·.id) a.clean l.placements →
      l'.reserved worker column ≤ l.reserved worker column := by
    intro a hplacements
    have hsublist := filter_clean_sublist worker a l.placements
    rw [Journal.reserved_eq, Journal.reserved_eq, hplacements,
      effect.costs_kept wf fixed (hsublist.trans List.filter_sublist)]
    refine List.Sublist.sum_le_sum (hsublist.map _) ?_
    intro cost hcost
    obtain ⟨b, _, rfl⟩ := List.mem_map.mp hcost
    exact cost_nonneg seated positive b.runId
  cases effect.shift wf with
  | still placements _ => exact .inl (same [] (by simpa using placements) rfl)
  | @assigned _ attempt locked session w r _ _ _ chosen _ _ _ _ _ placements _ _ =>
    by_cases hworker : w.id = worker
    · subst hworker
      refine .inr ⟨attempt, locked, session, rfl, ?_⟩
      exact Ledger.creates_of_placement placements chosen.fresh
    · refine .inl (same _ placements ?_)
      simp [Placement.counts, hworker]
  | admitted _ _ placements _ =>
    refine .inl (same _ placements ?_)
    simp [Placement.counts, docker.symm]
  | stopped _ _ _ placements _ => exact .inl (cleaned _ placements)
  | removed _ _ _ placements _ => exact .inl (cleaned _ placements)

/-- An assignment that creates an attempt finds room for it on the undrained worker, and
leaves the worker with no more than its capacity reserved. -/
theorem Effect.assign_created (wf : l.WellFormed) {attempt : RandomId} {locked : List String}
    {id session : String} (effect : Effect p now l (.assign attempt locked id session) l')
    (created : l.Creates l') : ∃ w r, l.worker? id = some w ∧ l'.worker? id = some w ∧
      ¬ w.drained ∧ r ∈ l.runs ∧
      l'.reserved id (·.cpuMillis) = l.reserved id (·.cpuMillis) + r.cpuMillis ∧
      l'.reserved id (·.memoryMib) = l.reserved id (·.memoryMib) + r.memoryMib ∧
      l'.Fits w := by
  cases effect.shift wf with
  | still placements _ =>
    obtain ⟨a', ha', fresh⟩ := created
    have hmem : a'.placement ∈ l.placements := placements ▸ Journal.mem_placements ha'
    obtain ⟨a, ha, hsame⟩ := List.mem_map.mp hmem
    exact absurd (congrArg Placement.id hsame) (fresh a ha)
  | @assigned _ _ _ _ w r _ worker undrained chosen cpu memory _ _ _ placements _ workers =>
    have hcpu := effect.reserved_placed wf fixed_cpu chosen.run rfl placements
    have hmemory := effect.reserved_placed wf fixed_memory chosen.run rfl placements
    have hr := (Table.lookup_mem chosen.run).1
    have worker' : l'.worker? w.id = some w := by
      rw [Ledger.worker?, workers]
      exact worker
    refine ⟨w, r, worker, worker', undrained, hr, hcpu, hmemory, ?_, ?_⟩
    · dsimp only at hcpu ⊢
      omega
    · dsimp only at hmemory ⊢
      omega

/-- An attempt leaves the counts only when it is over and its worker, or for a Job the
controller, reports that its runtime is gone. -/
theorem Effect.leaves (wf : l.WellFormed) (effect : Effect p now l op l') {a a' : AttemptRow}
    (ha : a ∈ l.attempts) (pending : a.cleanupStatus = .pending) (ha' : a' ∈ l'.attempts)
    (hid : a'.id = a.id) (left : a'.cleanupStatus ≠ .pending) : ¬ a.status.live ∧
      ((∃ session runtime, op = .runtimeReport a.workerId session a.id runtime true) ∨
        a.workerId = kubernetesWorker ∧ ∃ runtime, op = .kubernetesRuntime a.id runtime true) := by
  have keyed' := Journal.placements_keyed (effect.wellFormed wf).toWellFormed
  have hplacement := Journal.mem_placements ha
  have hplacement' := Journal.mem_placements ha'
  have unchanged : a.placement ∈ l'.placements → False := by
    intro hmem
    have same : a'.placement = a.placement := keyed'.eq hplacement' hmem hid
    have hcleanup : a'.cleanupStatus = a.cleanupStatus := congrArg Placement.cleanupStatus same
    exact left (hcleanup.trans pending)
  cases effect.shift wf with
  | still placements _ => exact (unchanged (placements ▸ hplacement)).elim
  | assigned _ _ _ _ _ _ _ _ placements _ _ =>
    exact (unchanged (placements ▸ List.mem_append_left _ hplacement)).elim
  | admitted _ _ placements _ =>
    exact (unchanged (placements ▸ List.mem_append_left _ hplacement)).elim
  | @stopped _ session runtime b member _ finished placements _ =>
    by_cases hb : a.id = b.id
    · have hab : a = b := wf.attempts.eq ha member hb
      subst hab
      exact ⟨finished, .inl ⟨session, runtime, rfl⟩⟩
    · exact (unchanged (placements ▸ Table.replace_other hplacement hb)).elim
  | @removed _ runtime b member owner finished placements _ =>
    by_cases hb : a.id = b.id
    · have hab : a = b := wf.attempts.eq ha member hb
      subst hab
      exact ⟨finished, .inr ⟨owner, runtime, rfl⟩⟩
    · exact (unchanged (placements ▸ Table.replace_other hplacement hb)).elim

/-- Admission to Kubernetes keeps its limit. -/
theorem Effect.admitted_le (wf : l.WellFormed) (seated : l.Seated) {limit : Nat}
    (bounded : l.admitted.length ≤ limit)
    (fixed : ∀ attempt locked maxActive, op = .admitKubernetes attempt locked maxActive →
      maxActive = limit) (effect : Effect p now l op l') : l'.admitted.length ≤ limit := by
  rw [Journal.admitted_length] at bounded ⊢
  have cleaned : ∀ a : Placement,
      l'.placements = Table.replace (·.id) a.clean l.placements →
      (l'.placements.filter (·.counts kubernetesWorker)).length ≤ limit := by
    intro a hplacements
    rw [hplacements]
    exact le_trans (filter_clean_sublist kubernetesWorker a l.placements).length_le bounded
  cases effect.shift wf with
  | still placements _ =>
    rw [placements]
    exact bounded
  | assigned worker _ _ _ _ _ _ _ placements _ _ =>
    have docker := seated.not_kubernetes (Table.lookup_mem worker).1
    rw [placements, List.filter_append]
    simpa [Placement.counts, docker] using bounded
  | admitted room _ placements _ =>
    have hlimit := fixed _ _ _ rfl
    rw [Journal.admitted_length] at room
    rw [placements, List.filter_append, List.length_append]
    simp only [Placement.counts, decide_true, Bool.and_self, List.filter_cons_of_pos,
      List.filter_nil, List.length_cons, List.length_nil]
    simp only [Placement.counts] at room
    omega
  | stopped _ _ _ placements _ => exact cleaned _ placements
  | removed _ _ _ placements _ => exact cleaned _ placements

/-- Where the workers of the next ledger come from. -/
theorem Effect.workers_from (effect : Effect p now l op l') : ∀ w' ∈ l'.workers,
    (∃ w ∈ l.workers, w'.id = w.id ∧ ((w'.cpuMillis = w.cpuMillis ∧ w'.memoryMib = w.memoryMib) ∨
      ∃ session gpu, l.worker? w.id = some w ∧
        op = .registerWorker w.id session ⟨w'.cpuMillis, w'.memoryMib⟩ gpu)) ∨
    (∀ w ∈ l.workers, w.id ≠ w'.id) ∧ 0 < w'.cpuMillis ∧ 0 < w'.memoryMib := by
  have kept : ∀ w' ∈ l.workers, ∃ w ∈ l.workers, w'.id = w.id ∧
      ((w'.cpuMillis = w.cpuMillis ∧ w'.memoryMib = w.memoryMib) ∨
        ∃ session gpu, l.worker? w.id = some w ∧
          op = .registerWorker w.id session ⟨w'.cpuMillis, w'.memoryMib⟩ gpu) :=
    fun w' hw' => ⟨w', hw', rfl, .inl ⟨rfl, rfl⟩⟩
  intro w' hw'
  cases effect with
  | same | submitted | moved | assigned | admitted | stopped | removed | cancelled | requeued =>
    exact .inl (kept w' hw')
  | registered _ positive unknown =>
    rcases List.mem_append.mp hw' with hw' | hw'
    · exact .inl (kept w' hw')
    · rw [List.mem_singleton.mp hw']
      exact .inr ⟨Table.lookup_none unknown, positive⟩
  | reregistered known =>
    rcases Table.mem_replace hw' with rfl | ⟨hw', _⟩
    · exact .inl ⟨_, (Table.lookup_mem known).1, rfl, .inr ⟨_, _, known, rfl⟩⟩
    · exact .inl (kept w' hw')
  | marked known id cpu memory | discovered known id cpu memory _ =>
    rcases Table.mem_replace hw' with rfl | ⟨hw', _⟩
    · exact .inl ⟨_, (Table.lookup_mem known).1, id, .inl ⟨cpu, memory⟩⟩
    · exact .inl (kept w' hw')

/-- No attempt of a worker that is not registered reserves anything. -/
theorem Ledger.Seated.reserved_unknown (seated : l.Seated) {worker : String}
    (unknown : ∀ w ∈ l.workers, w.id ≠ worker) (docker : worker ≠ kubernetesWorker)
    (column : RunRow → Int) : l.reserved worker column = 0 := by
  have none : l.placements.filter (·.counts worker) = [] := by
    refine List.filter_eq_nil_iff.mpr ?_
    intro a ha hcounts
    simp only [Placement.counts, Bool.and_eq_true, decide_eq_true_eq] at hcounts
    rcases seated.seat a ha with hkubernetes | ⟨w, hw, hid⟩
    · exact docker (hcounts.1.symm.trans hkubernetes)
    · exact unknown w hw (hid.trans hcounts.1)
  rw [Journal.reserved_eq, none]
  rfl

/-- Unless a registration lowers a capacity, the workers keep fitting. -/
theorem Effect.fits (wf : l.WellFormed) (seated : l.Seated)
    (keeps : ∀ id session capacity gpu, op = .registerWorker id session capacity gpu →
      ∀ w, l.worker? id = some w →
        w.cpuMillis ≤ capacity.cpuMillis ∧ w.memoryMib ≤ capacity.memoryMib)
    (effect : Effect p now l op l') (fits : ∀ w ∈ l.workers, l.Fits w) :
    ∀ w ∈ l'.workers, l'.Fits w := by
  intro w' hw'
  have seated' := effect.seated wf seated
  have docker := seated'.not_kubernetes hw'
  have created : (∃ attempt locked session, op = .assign attempt locked w'.id session ∧
      l.Creates l') → l'.Fits w' := by
    rintro ⟨attempt, locked, session, rfl, hcreates⟩
    obtain ⟨w, _, _, found, _, _, _, _, hfits⟩ := effect.assign_created wf hcreates
    obtain ⟨hw, hid⟩ := Table.lookup_mem found
    have same : w = w' := (effect.wellFormed wf).workers.eq hw hw' hid
    exact same ▸ hfits
  rcases effect.reserved_le wf seated fixed_cpu (fun _ _ demand => demand.cpu.le) docker with
    hcpu | hcreated
  swap
  · exact created hcreated
  rcases effect.reserved_le wf seated fixed_memory (fun _ _ demand => demand.memory.le) docker with
    hmemory | hcreated
  swap
  · exact created hcreated
  rcases effect.workers_from w' hw' with
    ⟨w, hw, hid, hcapacity⟩ | ⟨unknown, cpu, memory⟩
  · obtain ⟨oldCpu, oldMemory⟩ := fits w hw
    have capacity : w.cpuMillis ≤ w'.cpuMillis ∧ w.memoryMib ≤ w'.memoryMib := by
      rcases hcapacity with ⟨same, same'⟩ | ⟨session, gpu, known, hop⟩
      · omega
      · exact keeps _ _ _ _ hop w known
    rw [← hid] at oldCpu oldMemory
    constructor
    · omega
    · omega
  · have zero := seated.reserved_unknown unknown docker
    rw [zero] at hcpu hmemory
    constructor
    · omega
    · omega

end Effects

section Reachable

variable {p : PostgresStore} {s : PostgresStore.State}

/-- A report of a Docker worker on a Job is refused. -/
theorem runtimeReport_kubernetes {now : Int} {worker session runtime : String} {stopped : Bool}
    {a : AttemptRow} {db' : Db} (hs : p.system.Reachable s) (ha : a ∈ s.db.attempts)
    (owner : a.workerId = kubernetesWorker) :
    runtimeReport now worker session a.id runtime stopped s.db ≠ .ok db' := by
  intro h
  have wf := PostgresStore.reachable_wellFormed hs
  have found : s.db.attempt? a.id = some a := wf.attempts.lookup ha
  obtain ⟨w, hw, hrest⟩ := Result.bind_ok.mp h
  obtain ⟨hworker, _⟩ := requireWorker_ok hw
  obtain ⟨x, hx, hrest⟩ := Result.bind_ok.mp hrest
  obtain ⟨_, howner, _⟩ := Result.bind_ok.mp hrest
  have locked := lockAttempt_ok wf.toWellFormed hx
  have hattempt := locked.attempt
  rw [locked.same, found] at hattempt
  simp only [Result.throwIf_ok, decide_eq_true_eq, not_not, ← Option.some.inj hattempt] at howner
  obtain ⟨hmem, hid⟩ := Table.lookup_mem hworker
  exact (seated_reachable hs).not_kubernetes hmem (hid.trans (howner.symm.trans owner))

/-- Reservation safety of both schedulers. -/
theorem reservation_safety (p : PostgresStore) {s : PostgresStore.State}
    (hs : p.system.Reachable s) :
    (∀ now attempt locked worker session,
      s.db.Creates (p.commit now (.assign attempt locked worker session) s.db).toLedger →
      ∃ w, s.db.worker? worker = some w ∧
        (p.commit now (.assign attempt locked worker session) s.db).worker? worker = some w ∧
        ¬ w.drained ∧ s.db.Fits w ∧
        (p.commit now (.assign attempt locked worker session) s.db).Fits w) ∧
    (∀ a ∈ s.db.attempts, a.workerId ≠ kubernetesWorker → a.cleanupStatus = .pending →
      ∀ now op, s.clock ≤ now → ∃ a', (p.commit now op s.db).attempt? a.id = some a' ∧
        a.SameIdentity a' ∧ (a'.cleanupStatus = .done → ¬ a.status.live ∧
          ∃ session runtime, op = .runtimeReport a.workerId session a.id runtime true)) ∧
    (∀ a ∈ s.db.attempts, a.cleanupStatus = .done → ∀ s', p.system.Later s s' →
      ∃ a', s'.db.attempt? a.id = some a' ∧ a.SameIdentity a' ∧ a'.cleanupStatus = .done) ∧
    (p.system.Leads KeepsCapacity p.system.init s → ∀ w ∈ s.db.workers, s.db.Fits w) ∧
    (∀ limit, p.system.Leads (AdmitsUpTo limit) p.system.init s →
      s.db.admitted.length ≤ limit) ∧
    (∀ a ∈ s.db.attempts, a.workerId = kubernetesWorker →
      (∀ w ∈ s.db.workers, w.id ≠ a.workerId) ∧
      ∀ now worker session runtime stopped db',
        runtimeReport now worker session a.id runtime stopped s.db ≠ .ok db') := by
  have wf := PostgresStore.reachable_wellFormed hs
  have seated := seated_reachable hs
  refine ⟨?_, ?_, ?_, ?_, ?_, ?_⟩
  · intro now attempt locked worker session hcreates
    have effect : Effect p now _ (.assign attempt locked worker session) _ :=
      PostgresStore.commit_effect wf
    obtain ⟨w, r, hold, hnew, undrained, hr, hcpu, hmemory, hfits⟩ :=
      effect.assign_created wf hcreates
    have demand := seated.demand r hr
    have hid := (Table.lookup_mem hold).2
    refine ⟨w, hold, hnew, undrained, ?_, hfits⟩
    obtain ⟨hfitsCpu, hfitsMemory⟩ := hfits
    obtain ⟨_, _, _, _⟩ := demand
    subst hid
    constructor
    · omega
    · omega
  · intro a ha docker pending now op hclock
    have effect : Effect p now _ op _ := PostgresStore.commit_effect wf
    have hs' := p.reachable_commit hs op hclock
    have later : p.system.Later s ⟨p.commit now op s.db, now⟩ :=
      System.Leads.single (e := ⟨now, op⟩) trivial (if_pos hclock)
    obtain ⟨a', ha', evolved⟩ := attempt_later hs later a ha
    have found := (PostgresStore.reachable_wellFormed hs').attempts.lookup ha'
    rw [evolved.identity.id] at found
    refine ⟨a', found, evolved.identity, fun done => ?_⟩
    obtain ⟨finished, hop | ⟨hkubernetes, _⟩⟩ :=
      effect.leaves wf ha pending ha' evolved.identity.id (by simp [done])
    · exact ⟨finished, hop⟩
    · exact absurd hkubernetes docker
  · intro a ha done s' later
    obtain ⟨a', ha', evolved⟩ := attempt_later hs later a ha
    have found := (PostgresStore.reachable_wellFormed (hs.later later)).attempts.lookup ha'
    rw [evolved.identity.id] at found
    exact ⟨a', found, evolved.identity, evolved.cleaned done⟩
  · intro run
    refine System.Leads.stable (P := fun s => ∀ w ∈ s.db.workers, s.db.Fits w)
      System.reachable_init run (by intro w hw; cases hw) ?_
    intro s e s' hs fits keeps hstep
    obtain ⟨_, rfl⟩ := p.step_eq hstep
    have wf := PostgresStore.reachable_wellFormed hs
    have effect : Effect p e.now _ e.op _ := PostgresStore.commit_effect wf
    exact effect.fits wf (seated_reachable hs) keeps fits
  · intro limit run
    refine System.Leads.stable (P := fun s => s.db.admitted.length ≤ limit)
      System.reachable_init run (Nat.zero_le _) ?_
    intro s e s' hs bounded fixed hstep
    obtain ⟨_, rfl⟩ := p.step_eq hstep
    have wf := PostgresStore.reachable_wellFormed hs
    have effect : Effect p e.now _ e.op _ := PostgresStore.commit_effect wf
    exact effect.admitted_le wf (seated_reachable hs) bounded fixed
  · intro a ha owner
    refine ⟨fun w hw => ?_, fun now worker session runtime stopped db' => ?_⟩
    · rw [owner]
      exact seated.not_kubernetes hw
    · exact runtimeReport_kubernetes hs ha owner

theorem reservation_safety_assigned : ∃ w, Sample.assigned.db.worker? "worker" = some w ∧
    ¬ w.drained ∧ Sample.assigned.db.Fits w := by
  have created : Sample.registered.db.Creates Sample.assigned.db.toLedger := by decide +kernel
  have assigned := (reservation_safety Sample.store Sample.registered_reachable).1
  obtain ⟨w, _, found, undrained, _, fits⟩ :=
    assigned 3 Sample.attemptId [] "worker" "session" created
  exact ⟨w, found, undrained, fits⟩

end Reachable

end Runyard
