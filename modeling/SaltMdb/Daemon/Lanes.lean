import SaltMdb.Daemon.Scheduling

/-! How the coordinator's lanes are served: each in its order, the background after eight foreground jobs at the latest, and no
job that comes once draining has begun. -/

namespace SaltMdb
open Coordinator

variable {α : Type}

def Sight.admittedTo (priority : Priority) : Sight → Option Nat
  | .admitted lane future => if lane = priority then some future else none
  | _ => none

def Sight.takenFrom (priority : Priority) : Sight → Option Nat
  | .taken lane future _ => if lane = priority then some future else none
  | _ => none

/-- The lane a job is taken from, and whether a background job was waiting. -/
def Sight.turn : Sight → Option (Priority × Bool)
  | .taken lane _ behind => some (lane, behind)
  | _ => none

/-- Draining begins with it. -/
def Sight.begins : Sight → Bool
  | .drainingBegun _ => true
  | _ => false

def Sight.admits : Sight → Bool
  | .admitted _ _ => true
  | _ => false

namespace Watched

variable (w : Watched α)

/-- The futures of the jobs admitted to a lane, in order. -/
def admitted (priority : Priority) : List Nat := w.seen.filterMap (Sight.admittedTo priority)

/-- The futures of the jobs taken from a lane, in order. -/
def taken (priority : Priority) : List Nat := w.seen.filterMap (Sight.takenFrom priority)

def turns : List (Priority × Bool) := w.seen.filterMap Sight.turn

variable {w}

/-! ### The order within a lane -/

/-- A lane holds what was admitted to it and has not been taken, as long as nothing has emptied it. -/
def InOrder (w : Watched α) : Prop :=
  ∀ priority, ∃ lost, w.admitted priority = w.taken priority ++ (w.now.lane priority).map WriteJob.future ++ lost ∧
    (w.now.stopping = false → lost = [])

/-- Steps that neither admit to a lane nor take from it keep its order, also where they empty it. -/
theorem InOrder.quiet {t : Coordinator α} {sights : List Sight} {priority : Priority} {lost : List Nat}
    (same : w.admitted priority = w.taken priority ++ (w.now.lane priority).map WriteJob.future ++ lost)
    (kept : (t.lane priority = w.now.lane priority ∧ (t.stopping = false → lost = [])) ∨ (t.lane priority = [] ∧ t.stopping = true))
    (none_ : sights.filterMap (Sight.admittedTo priority) = []) (nothing : sights.filterMap (Sight.takenFrom priority) = []) :
    ∃ lost, (⟨t, w.seen ++ sights⟩ : Watched α).admitted priority =
      (⟨t, w.seen ++ sights⟩ : Watched α).taken priority ++ (t.lane priority).map WriteJob.future ++ lost ∧ (t.stopping = false → lost = []) := by
  unfold admitted taken at same ⊢
  rw [List.filterMap_append, List.filterMap_append, none_, nothing, List.append_nil, List.append_nil, same]
  rcases kept with ⟨lane, kept⟩ | ⟨lane, stopping⟩
  · exact ⟨lost, by rw [lane], kept⟩
  · refine ⟨(w.now.lane priority).map WriteJob.future ++ lost, ?_, fun goes => absurd (stopping.symm.trans goes) nofun⟩
    rw [lane, List.map_nil, List.append_nil, List.append_assoc]

theorem InOrder.step {t : Coordinator α} {sights : List Sight} {action : Action α} {broken : Bool} (order : w.InOrder)
    (moves : w.now.Moves action broken t sights) :
    InOrder ⟨t, w.seen ++ sights⟩ := by
  intro priority
  obtain ⟨lost, same, kept⟩ := order priority
  have full : w.now.stopping = false → lost = [] := kept
  cases moves with
  | putForeground _ label on admits =>
    cases priority with
    | foreground =>
      refine ⟨[], ?_, fun _ => rfl⟩
      unfold admitted taken at same ⊢
      simp only [List.filterMap_append, same, full admits, Coordinator.lane]
      simp [Sight.admittedTo, Sight.takenFrom]
    | background => exact quiet same (.inl ⟨rfl, kept⟩) rfl rfl
  | putBackground _ label maintenance on admits =>
    cases priority with
    | foreground => exact quiet same (.inl ⟨rfl, kept⟩) rfl rfl
    | background =>
      refine ⟨[], ?_, fun _ => rfl⟩
      unfold admitted taken at same ⊢
      simp only [List.filterMap_append, same, full admits, Coordinator.lane]
      simp [Sight.admittedTo, Sight.takenFrom]
  | takeForeground job jobs stands first allowed =>
    cases priority with
    | foreground =>
      refine ⟨lost, ?_, kept⟩
      unfold admitted taken at same ⊢
      simp only [List.filterMap_append, same, Coordinator.lane, first]
      simp [Sight.admittedTo, Sight.takenFrom]
    | background => exact quiet same (.inl ⟨rfl, kept⟩) rfl rfl
  | takeBackground job jobs stands first =>
    cases priority with
    | foreground => exact quiet same (.inl ⟨rfl, kept⟩) rfl rfl
    | background =>
      refine ⟨lost, ?_, kept⟩
      unfold admitted taken at same ⊢
      simp only [List.filterMap_append, same, Coordinator.lane, first]
      simp [Sight.admittedTo, Sight.takenFrom]
  | beginDraining | drainOwn => exact quiet same (.inr ⟨by cases priority <;> rfl, rfl⟩) rfl rfl
  | notify | endDrain => exact quiet same (.inl ⟨by cases priority <;> simp [Coordinator.lane], by simpa using kept⟩) rfl rfl
  | _ => exact quiet same (.inl ⟨by cases priority <;> rfl, kept⟩) rfl rfl

/-! ### Turns -/

def Waited (turn : Priority × Bool) : Prop := turn = (.foreground, true)

/-- Where the writer has served nothing yet. -/
def Unserved : Writer α → Prop
  | .absent | .opening | .leaving .openFailed | .draining .openFailed _ => True
  | _ => False

structure Fair (w : Watched α) : Prop where
  /-- At most eight foreground jobs in a row while a background job waits. -/
  bounded : ∀ run, run <:+: w.turns → (∀ turn ∈ run, Waited turn) → run.length ≤ 8
  counted : ∀ run, run <:+ w.turns → (∀ turn ∈ run, Waited turn) → run.length ≤ w.now.foregroundRun
  unserved : Unserved w.now.writer → w.turns = []
  off : w.now.started = false → w.turns = []

theorem Fair.quiet {t : Coordinator α} {sights : List Sight} (fair : w.Fair) (nothing : sights.filterMap Sight.turn = [])
    (counts : w.now.foregroundRun ≤ t.foregroundRun ∨ w.turns = []) (unserved : Unserved t.writer → Unserved w.now.writer ∨ w.now.started = false)
    (off : t.started = false → w.now.started = false ∨ Unserved w.now.writer) : Fair ⟨t, w.seen ++ sights⟩ := by
  have same : (⟨t, w.seen ++ sights⟩ : Watched α).turns = w.turns := by
    unfold turns
    rw [List.filterMap_append, nothing, List.append_nil]
  constructor
  · rw [same]
    exact fair.bounded
  · rw [same]
    intro run suffix all
    rcases counts with more | none_
    · exact (fair.counted run suffix all).trans more
    · rw [none_] at suffix
      rw [List.suffix_nil.mp suffix]
      exact Nat.zero_le _
  · rw [same]
    intro early
    exact (unserved early).elim fair.unserved fair.off
  · rw [same]
    intro stopped
    exact (off stopped).elim fair.off fair.unserved

theorem Fair.step {t : Coordinator α} {sights : List Sight} {action : Action α} {broken : Bool} (grounded : w.Grounded) (fair : w.Fair)
    (moves : w.now.Moves action broken t sights) : Fair ⟨t, w.seen ++ sights⟩ := by
  cases moves with
  | takeForeground job jobs stands first allowed =>
    have last : ∀ run, run <:+ w.turns ++ [(Priority.foreground, decide (w.now.background ≠ []))] → (∀ turn ∈ run, Waited turn) →
        run.length ≤ w.now.foregroundRun + 1 ∧ run.length ≤ 8 := by
      intro run suffix all
      rcases List.suffix_concat_iff.mp suffix with rfl | ⟨shorter, rfl, before⟩
      · simp
      · have waited := all _ (List.mem_append_right _ List.mem_cons_self)
        have counted := fair.counted shorter before fun turn member => all turn (List.mem_append_left _ member)
        have behind : w.now.background ≠ [] := by simpa [Waited] using waited
        have few := allowed.resolve_left behind
        rw [List.length_append, List.length_singleton]
        omega
    have turns : (w.seen ++ [Sight.taken .foreground job.future (decide (w.now.background ≠ []))]).filterMap Sight.turn =
        w.turns ++ [(.foreground, decide (w.now.background ≠ []))] := by
      rw [List.filterMap_append]
      rfl
    constructor
    · intro run infix_ all
      unfold Watched.turns at infix_
      rw [turns] at infix_
      rcases List.infix_concat_iff.mp infix_ with suffix | before
      · exact (last run suffix all).2
      · exact fair.bounded run before all
    · intro run suffix all
      unfold Watched.turns at suffix
      rw [turns] at suffix
      exact (last run suffix all).1
    · exact nofun
    · exact fun off => absurd (off.symm.trans (grounded.started stands nofun nofun)) nofun
  | takeBackground job jobs stands first =>
    have turns : (w.seen ++ [Sight.taken .background job.future true]).filterMap Sight.turn = w.turns ++ [(.background, true)] := by
      rw [List.filterMap_append]
      rfl
    have last : ∀ run, run <:+ w.turns ++ [(Priority.background, true)] → (∀ turn ∈ run, Waited turn) → run = [] := by
      intro run suffix all
      rcases List.suffix_concat_iff.mp suffix with rfl | ⟨shorter, rfl, before⟩
      · rfl
      · exact absurd (all _ (List.mem_append_right _ List.mem_cons_self)) nofun
    constructor
    · intro run infix_ all
      unfold Watched.turns at infix_
      rw [turns] at infix_
      rcases List.infix_concat_iff.mp infix_ with suffix | before
      · rw [last run suffix all]
        exact Nat.zero_le _
      · exact fair.bounded run before all
    · intro run suffix all
      unfold Watched.turns at suffix
      rw [turns] at suffix
      rw [last run suffix all]
      exact Nat.zero_le _
    · exact nofun
    · exact fun off => absurd (off.symm.trans (grounded.started stands nofun nofun)) nofun
  | start _ off => exact fair.quiet rfl (.inl le_rfl) (fun _ => .inr off) nofun
  | opened stands => exact fair.quiet rfl (.inr (fair.unserved (by rw [stands]; trivial))) nofun fun off => .inl off
  | openFailed stands => exact fair.quiet rfl (.inl le_rfl) (fun _ => .inl (by rw [stands]; trivial)) .inl
  | drainOwn departure stands =>
    refine fair.quiet rfl (.inl le_rfl) (fun early => .inl ?_) .inl
    rw [stands]
    cases departure <;> exact early
  | refuseOwn departure job jobs stands => 
    refine fair.quiet rfl (.inl le_rfl) (fun early => .inl ?_) .inl
    rw [stands]
    cases departure <;> exact early
  | endOwn departure stands started off =>
    refine fair.quiet rfl (.inl le_rfl) nofun fun stopped => ?_
    by_cases failed : departure = .openFailed
    · subst failed
      exact .inr (by rw [stands]; trivial)
    · exact .inl (off failed ▸ stopped)
  | notify | endDrain =>
    refine fair.quiet rfl (.inl (by simp)) (fun early => .inl ?_) fun off => .inl (by simpa using off)
    rcases Coordinator.wake_writer (s := w.now) with same | ⟨_, woken⟩
    · exact same ▸ early
    · exact absurd early (by simp [woken, Unserved])
  | putForeground | putBackground | cancel | beginDraining | refuse | failDrain => exact fair.quiet rfl (.inl le_rfl) .inl .inl
  | _ => exact fair.quiet rfl (.inl le_rfl) nofun .inl

/-! ### Draining closes the lanes -/

structure Closing (w : Watched α) : Prop where
  begun : (∃ sight ∈ w.seen, sight.begins) → w.now.stopping = true
  after : w.seen.Pairwise fun earlier later => earlier.begins → ¬ later.admits
  emptied : w.now.stopping = true → w.now.foreground = [] ∧ w.now.background = []

theorem Closing.quiet {t : Coordinator α} {sights : List Sight} (closing : w.Closing)
    (unseen : ∀ sight ∈ sights, sight.begins = false ∧ sight.admits = false) (short : sights.length ≤ 1)
    (stopping : t.stopping = w.now.stopping)
    (lanes : w.now.foreground = [] ∧ w.now.background = [] → t.foreground = [] ∧ t.background = []) : Closing ⟨t, w.seen ++ sights⟩ where
  begun := by
    rintro ⟨sight, member, begins⟩
    rcases List.mem_append.mp member with before | now_
    · exact stopping.trans (closing.begun ⟨sight, before, begins⟩)
    · exact absurd (begins.symm.trans (unseen sight now_).1) nofun
  after := by
    refine List.pairwise_append.mpr ⟨closing.after, ?_, fun earlier _ later now_ _ => by simp [(unseen later now_).2]⟩
    match sights, short with
    | [], _ => exact List.Pairwise.nil
    | [_], _ => exact List.pairwise_singleton _ _
  emptied := fun stops => lanes (closing.emptied (stopping.symm.trans stops))

theorem Closing.admit {t : Coordinator α} {sight : Sight} (closing : w.Closing) (admits : w.now.stopping = false)
    (waits : sight.begins = false) (stopping : t.stopping = w.now.stopping) : Closing ⟨t, w.seen ++ [sight]⟩ where
  begun := by
    rintro ⟨other, member, begins⟩
    rcases List.mem_append.mp member with before | now_
    · exact stopping.trans (closing.begun ⟨other, before, begins⟩)
    · rw [List.mem_singleton.mp now_, waits] at begins
      exact absurd begins nofun
  after := by
    refine List.pairwise_append.mpr ⟨closing.after, List.pairwise_singleton _ _, fun earlier before _ _ begins => ?_⟩
    exact absurd ((closing.begun ⟨earlier, before, begins⟩).symm.trans admits) nofun
  emptied := fun stops => absurd ((stopping.symm.trans stops).symm.trans admits) nofun

theorem Closing.begin_ {t : Coordinator α} {byWriter : Bool} (closing : w.Closing) (stopping : t.stopping = true)
    (lanes : t.foreground = [] ∧ t.background = []) : Closing ⟨t, w.seen ++ [.drainingBegun byWriter]⟩ where
  begun := fun _ => stopping
  after := by
    refine List.pairwise_append.mpr ⟨closing.after, List.pairwise_singleton _ _, fun _ _ later now_ _ => ?_⟩
    rw [List.mem_singleton.mp now_]
    exact nofun
  emptied := fun _ => lanes

theorem Closing.step {t : Coordinator α} {sights : List Sight} {action : Action α} {broken : Bool} (closing : w.Closing)
    (moves : w.now.Moves action broken t sights) :
    Closing ⟨t, w.seen ++ sights⟩ := by
  cases moves with
  | putForeground _ _ _ admits => exact closing.admit admits rfl rfl
  | putBackground _ _ _ _ admits => exact closing.admit admits rfl rfl
  | beginDraining | drainOwn => exact closing.begin_ rfl ⟨rfl, rfl⟩
  | notify | endDrain => exact closing.quiet nofun (Nat.zero_le 1) (by simp) (by simp)
  | takeForeground _ _ _ first =>
    exact closing.quiet (List.forall_mem_singleton.mpr ⟨rfl, rfl⟩) le_rfl rfl fun none_ => absurd (first.symm.trans none_.1) nofun
  | takeBackground _ _ _ first =>
    exact closing.quiet (List.forall_mem_singleton.mpr ⟨rfl, rfl⟩) le_rfl rfl fun none_ => absurd (first.symm.trans none_.2) nofun
  | openFailed | returned | stop | execute | exit | break_ | refuse | refuseOwn =>
    exact closing.quiet (List.forall_mem_singleton.mpr ⟨rfl, rfl⟩) le_rfl rfl id
  | _ => exact closing.quiet nofun (Nat.zero_le 1) rfl id

theorem inOrder (actions : List (Action α)) : (actions.foldl next fresh).InOrder :=
  invariant (fun priority => ⟨[], by cases priority <;> rfl, fun _ => rfl⟩) (fun _ _ _ _ _ order moves => order.step moves) actions

theorem fair (actions : List (Action α)) : (actions.foldl next fresh).Fair := by
  refine (invariant (P := fun w => w.Grounded ∧ w.Fair) ⟨fun _ => .inl rfl, ?_⟩
    (fun _ _ _ _ _ kept moves => ⟨kept.1.step moves, kept.2.step kept.1 moves⟩) actions).2
  constructor
  · intro run within _
    rw [List.infix_nil.mp within]
    exact Nat.zero_le 8
  · intro run ends _
    rw [List.suffix_nil.mp ends]
    exact le_rfl
  · exact fun _ => rfl
  · exact fun _ => rfl

theorem closing (actions : List (Action α)) : (actions.foldl next fresh).Closing :=
  invariant ⟨fun ⟨_, member, _⟩ => absurd member nofun, List.Pairwise.nil, nofun⟩ (fun _ _ _ _ _ closes moves => closes.step moves) actions

/-- Over any run of submissions, cancellations, failures and drains, each lane is served in the order of its admissions, at most
eight foreground jobs in a row are taken while a background job waits, and no job is admitted once draining has begun. -/
theorem served (actions : List (Action α)) :
    (∀ priority, (actions.foldl next fresh).taken priority <+: (actions.foldl next fresh).admitted priority) ∧
      (∀ run, run <:+: (actions.foldl next fresh).turns → (∀ turn ∈ run, turn = (Priority.foreground, true)) → run.length ≤ 8) ∧
      (actions.foldl next fresh).seen.Pairwise fun earlier later => earlier.begins → ¬ later.admits := by
  refine ⟨fun priority => ?_, (fair actions).bounded, (closing actions).after⟩
  obtain ⟨lost, same, _⟩ := inOrder actions priority
  rw [same, List.append_assoc]
  exact List.prefix_append _ _

end Watched

end SaltMdb
