import Mathlib.Algebra.GroupWithZero.Nat
import Kfx.Batch.Basic

/-!
# A batch worked on by several workers

A worker takes the first job that is left, hands back what became of it, and leaves when no job is
left; in between, any other worker may do the same. However the steps are interleaved, every job is
handed back once, and the report is the one of the jobs taken in turn.
-/
namespace Kfx

inductive Worker
  | waiting
  | busy (source : String) (index : Nat)
  | gone
  deriving DecidableEq

/-- The jobs that are left, the workers, and what they have handed back, as it came in. -/
structure Pool where
  queue : List (String × Nat)
  workers : List Worker
  sent : List Delivery

/-- What becomes of a numbered source. -/
def deliver (outcome : Nat → Except SourceError Outcome) (job : String × Nat) : Delivery :=
  ⟨job.2, job.1, outcome job.2⟩

/-- The report of one worker who goes through the sources in order. -/
def Report.inTurn (outcome : Nat → Except SourceError Outcome) (sources : List String) : Report :=
  (sources.zipIdx.map (deliver outcome)).foldl Report.add {}

namespace Pool

def start (sources : List String) (workers : Nat) : Pool :=
  ⟨sources.zipIdx, List.replicate workers .waiting, []⟩

inductive Step (outcome : Nat → Except SourceError Outcome) : Pool → Pool → Prop
  | take {source index queue before after sent} :
    Step outcome ⟨(source, index) :: queue, before ++ .waiting :: after, sent⟩
      ⟨queue, before ++ .busy source index :: after, sent⟩
  | send {source index queue before after sent} :
    Step outcome ⟨queue, before ++ .busy source index :: after, sent⟩
      ⟨queue, before ++ .waiting :: after, sent ++ [deliver outcome (source, index)]⟩
  | leave {before after sent} :
    Step outcome ⟨[], before ++ .waiting :: after, sent⟩ ⟨[], before ++ .gone :: after, sent⟩

/-- Some number of steps, of any workers. -/
inductive Run (outcome : Nat → Except SourceError Outcome) : Nat → Pool → Pool → Prop
  | refl (p) : Run outcome 0 p p
  | snoc {n p q r} (hrun : Run outcome n p q) (hstep : Step outcome q r) : Run outcome (n + 1) p r

def Finished (p : Pool) : Prop :=
  ∀ w ∈ p.workers, w = .gone

def held (p : Pool) : List (String × Nat) :=
  p.workers.filterMap fun
    | .busy source index => some (source, index)
    | _ => none

/-- How many steps are left: each job is taken and handed back, and each worker leaves. -/
def effort (p : Pool) : Nat :=
  2 * p.queue.length + (p.workers.map fun
    | .waiting => 1
    | .busy _ _ => 2
    | .gone => 0).sum

variable {outcome : Nat → Except SourceError Outcome} {p q : Pool} {n : Nat}

/-- What was handed back and what is still to be, together, stay the same jobs. -/
theorem Step.perm (h : Step outcome p q) :
    (q.sent ++ (q.held ++ q.queue).map (deliver outcome)).Perm
      (p.sent ++ (p.held ++ p.queue).map (deliver outcome)) := by
  cases h with
  | take =>
    simp only [held, List.filterMap_append, List.filterMap_cons, List.map_append, List.map_cons,
      List.append_assoc, List.cons_append]
    refine List.Perm.append_left _ (List.Perm.append_left _ ?_)
    exact List.perm_middle.symm
  | send =>
    simp only [held, List.filterMap_append, List.filterMap_cons, List.map_append, List.map_cons,
      List.append_assoc, List.cons_append, List.nil_append]
    refine List.Perm.append_left _ ?_
    exact List.perm_middle.symm
  | leave =>
    simp only [held, List.filterMap_append, List.filterMap_cons, List.Perm.refl]

theorem Step.effort (h : Step outcome p q) : q.effort + 1 = p.effort := by
  cases h with
  | take | send | leave =>
    simp only [Pool.effort, List.map_append, List.map_cons, List.sum_append, List.sum_cons,
      List.length_cons, List.length_nil]
    omega

theorem Step.length_workers (h : Step outcome p q) : q.workers.length = p.workers.length := by
  cases h <;> simp

/-- Nobody leaves while there are jobs. -/
def LeftLast (p : Pool) : Prop :=
  .gone ∈ p.workers → p.queue = []

theorem Step.leftLast (h : Step outcome p q) (hp : p.LeftLast) : q.LeftLast := by
  intro hgone
  cases h with
  | take =>
    have hqueue := hp (by simpa using hgone)
    cases hqueue
  | send => exact hp (by simpa using hgone)
  | leave => rfl

/-- What is known of a pool after any run from a start. -/
structure FromStart (outcome : Nat → Except SourceError Outcome) (sources : List String)
    (workers : Nat) (p : Pool) : Prop where
  perm : (p.sent ++ (p.held ++ p.queue).map (deliver outcome)).Perm
    (sources.zipIdx.map (deliver outcome))
  leftLast : p.LeftLast
  length : p.workers.length = workers

theorem held_start (sources : List String) (workers : Nat) : (start sources workers).held = [] := by
  simp [held, start]

theorem Run.fromStart {sources : List String} {workers : Nat}
    (h : Run outcome n (start sources workers) p) : FromStart outcome sources workers p := by
  induction n generalizing p with
  | zero =>
    cases h
    refine ⟨?_, ?_, by simp [start]⟩
    · rw [held_start]
      simp [start]
    · intro hgone
      simp [start] at hgone
  | succ n ih =>
    cases h with
    | snoc hrun hstep =>
      have hq := ih hrun
      exact ⟨hstep.perm.trans hq.perm, hstep.leftLast hq.leftLast,
        hstep.length_workers.trans hq.length⟩

theorem Run.effort (h : Run outcome n p q) : q.effort + n = p.effort := by
  induction h with
  | refl p => rfl
  | snoc _ hstep ih =>
    have hone := hstep.effort
    omega

theorem effort_start (sources : List String) (workers : Nat) :
    (start sources workers).effort = 2 * sources.length + workers := by
  simp [Pool.effort, start]

/-- As long as somebody is there, somebody can do something. -/
theorem exists_step (h : ¬ p.Finished) : ∃ q, Step outcome p q := by
  obtain ⟨queue, workers, sent⟩ := p
  obtain ⟨w, hmem, hw⟩ : ∃ w ∈ workers, w ≠ .gone := by
    apply Classical.byContradiction
    intro hnone
    exact h fun w hmem => Classical.byContradiction fun hw => hnone ⟨w, hmem, hw⟩
  obtain ⟨before, after, rfl⟩ := List.append_of_mem hmem
  cases w with
  | gone => exact absurd rfl hw
  | busy source index => exact ⟨_, .send⟩
  | waiting =>
    cases queue with
    | nil => exact ⟨_, .leave⟩
    | cons job queue =>
      obtain ⟨source, index⟩ := job
      exact ⟨_, .take⟩

/-- When everybody has left, every job has been handed back. -/
theorem FromStart.sent_perm {sources : List String} {workers : Nat}
    (h : FromStart outcome sources workers p) (hworkers : 0 < workers) (hp : p.Finished) :
    p.sent.Perm (sources.zipIdx.map (deliver outcome)) := by
  have hqueue : p.queue = [] := by
    have hlength := h.length
    cases hw : p.workers with
    | nil =>
      rw [hw] at hlength
      simp only [List.length_nil] at hlength
      omega
    | cons w rest =>
      have hmem : w ∈ p.workers := by simp [hw]
      exact h.leftLast (hp w hmem ▸ hmem)
  have hheld : p.held = [] := by
    refine List.filterMap_eq_nil_iff.mpr ?_
    intro w hmem
    rw [hp w hmem]
  simpa [hqueue, hheld] using h.perm

end Pool

theorem pairwise_deliver (outcome : Nat → Except SourceError Outcome) (sources : List String)
    (k : Nat) :
    ((sources.zipIdx k).map (deliver outcome)).Pairwise fun a b => a.index < b.index := by
  induction sources generalizing k with
  | nil => exact .nil
  | cons source sources ih =>
    refine .cons ?_ (ih (k + 1))
    intro d hd
    obtain ⟨job, hjob, rfl⟩ := List.mem_map.mp hd
    have hle := List.le_snd_of_mem_zipIdx hjob
    exact hle

theorem eq_of_index_eq {es : List Delivery} (hes : es.Pairwise fun a b => a.index < b.index)
    {a b : Delivery} (ha : a ∈ es) (hb : b ∈ es) (h : a.index = b.index) : a = b := by
  induction hes with
  | nil => cases ha
  | cons hfirst _ ih =>
    rcases List.mem_cons.mp ha with rfl | hrestA
    · rcases List.mem_cons.mp hb with rfl | hrestB
      · rfl
      · have hlt := hfirst b hrestB
        omega
    · rcases List.mem_cons.mp hb with rfl | hrestB
      · have hlt := hfirst a hrestA
        omega
      · exact ih hrestA hrestB

/-- Sorting by number undoes any order in which deliveries come in. -/
theorem inOrder_eq_of_perm {ds es : List Delivery} (hperm : ds.Perm es)
    (hes : es.Pairwise fun a b => a.index < b.index) : inOrder ds = es := by
  let le := fun a b : Delivery => decide (a.index ≤ b.index)
  have hsame : (inOrder ds).Perm es := (List.mergeSort_perm ds le).trans hperm
  have hsorted : (inOrder ds).Pairwise fun a b => a.index ≤ b.index := by
    have htrans : ∀ a b c, le a b = true → le b c = true → le a c = true := by
      simp only [le, decide_eq_true_eq]
      omega
    have htotal : ∀ a b, (le a b || le b a) = true := by
      simp only [le, Bool.or_eq_true, decide_eq_true_eq]
      omega
    exact (List.pairwise_mergeSort htrans htotal ds).imp fun h => by simpa [le] using h
  refine List.Perm.eq_of_pairwise ?_ hsorted (hes.imp Nat.le_of_lt) hsame
  intro a b ha hb hab hba
  exact eq_of_index_eq hes (hsame.mem_iff.mp ha) hb (Nat.le_antisymm hab hba)

/-- A schedule makes no difference to the report. -/
theorem Pool.FromStart.report {outcome : Nat → Except SourceError Outcome} {sources : List String}
    {workers : Nat} {p : Pool} (h : FromStart outcome sources workers p) (hworkers : 0 < workers)
    (hp : p.Finished) : Report.ofDeliveries p.sent = Report.inTurn outcome sources := by
  unfold Report.ofDeliveries Report.inTurn
  rw [inOrder_eq_of_perm (h.sent_perm hworkers hp) (pairwise_deliver outcome sources 0)]

namespace Delivery

def artifact? (d : Delivery) : Option String :=
  match d.outcome with
  | .ok (.written artifact) => some artifact
  | _ => none

def checked? (d : Delivery) : Option String :=
  match d.outcome with
  | .ok .checked => some d.source
  | _ => none

def failure? (d : Delivery) : Option (String × String) :=
  match d.outcome with
  | .error e => some (d.source, e.message)
  | _ => none

end Delivery

namespace Report

/-- Each list of the report is in the order of the deliveries, and every delivery is in one of
them. -/
structure Accounts (ds : List Delivery) (r : Report) : Prop where
  written : r.written = ds.filterMap Delivery.artifact?
  checked : r.checked = ds.filterMap Delivery.checked?
  failed : r.failed = ds.filterMap Delivery.failure?
  total : r.written.length + r.checked.length + r.failed.length = ds.length

theorem foldl_add (ds : List Delivery) (r : Report) :
    ds.foldl Report.add r = ⟨r.written ++ ds.filterMap Delivery.artifact?,
      r.checked ++ ds.filterMap Delivery.checked?,
      r.failed ++ ds.filterMap Delivery.failure?⟩ := by
  induction ds generalizing r with
  | nil => simp
  | cons d ds ih =>
    obtain ⟨index, source, outcome⟩ := d
    rw [List.foldl_cons, ih]
    rcases outcome with e | (artifact | _) <;>
      simp [Report.add, Delivery.artifact?, Delivery.checked?, Delivery.failure?,
        List.filterMap_cons]

theorem length_lists (ds : List Delivery) :
    (ds.filterMap Delivery.artifact?).length + (ds.filterMap Delivery.checked?).length +
      (ds.filterMap Delivery.failure?).length = ds.length := by
  induction ds with
  | nil => rfl
  | cons d ds ih =>
    obtain ⟨index, source, outcome⟩ := d
    rcases outcome with e | (artifact | _) <;>
      simp only [Delivery.artifact?, Delivery.checked?, Delivery.failure?, List.filterMap_cons,
        List.length_cons] <;>
      omega

theorem accounts_inTurn (outcome : Nat → Except SourceError Outcome) (sources : List String) :
    (inTurn outcome sources).Accounts (sources.zipIdx.map (deliver outcome)) := by
  unfold inTurn
  rw [foldl_add]
  exact ⟨rfl, rfl, rfl, length_lists _⟩

end Report

end Kfx
