import SaltMdb.Daemon.Scheduling

/-! What becomes of the futures: each job is run once or refused, its future says which, and no future is left behind where none
is cancelled under the hands of the thread that sets it. -/

namespace SaltMdb
open Coordinator Runs

variable {α : Type}

/-- The job of a future is run or refused. -/
def Sight.Spends (sight : Sight) (future : Nat) : Prop := sight = .executed future ∨ sight = .refused future

namespace Coordinator

variable {s t : Coordinator α} {action : Action α}

/-! ### What a step does to the jobs that wait for their end -/

inductive Effect (s t : Coordinator α) (broken : Bool) : Prop where
  | keeps (same : t.held.Perm s.held) (futures : t.futures = s.futures)
  | cancels (future : Nat) (same : t.held.Perm s.held) (futures : t.futures = s.futures.modify future Future.cancel)
  | admits (job : WriteJob) (next : job.future = s.futures.length) (grows : t.held.Perm (job :: s.held))
      (futures : t.futures = s.futures ++ [.pending])
  | resolves (job : WriteJob) (outcome : Except Raised α) (left : s.held.Perm (job :: t.held))
      (unresolved : s.futures[job.future]? = some .pending) (futures : t.futures = s.futures.set job.future (.done outcome))
  | drops (jobs : List WriteJob) (left : s.held.Perm (jobs ++ t.held)) (futures : t.futures = s.futures)
      (why : broken = true ∨ ∀ job ∈ jobs, s.futures[job.future]? = some .cancelled)

theorem wake_hand : s.wake.writer.hand = s.writer.hand := by
  rcases wake_writer (s := s) with same | ⟨asleep, woken⟩
  · rw [same]
  · rw [asleep, woken]
    rfl

theorem flatten_set {jobs : List WriteJob} {job : WriteJob} {drainer : Nat} (found : s.drainers[drainer]? = some (job :: jobs)) :
    s.drainers.flatten.Perm (job :: (s.drainers.set drainer jobs).flatten) := by
  obtain ⟨inside, read⟩ := List.getElem?_eq_some_iff.mp found
  have before := (List.getElem_cons_eraseIdx_perm inside).flatten
  rw [read] at before
  exact before.symm.trans (List.Perm.cons job (List.set_perm_cons_eraseIdx inside jobs).flatten.symm)

theorem flatten_eraseIdx {jobs : List WriteJob} {drainer : Nat} (found : s.drainers[drainer]? = some jobs) :
    s.drainers.flatten.Perm (jobs ++ (s.drainers.eraseIdx drainer).flatten) := by
  obtain ⟨inside, read⟩ := List.getElem?_eq_some_iff.mp found
  have before := (List.getElem_cons_eraseIdx_perm inside).flatten
  rw [read] at before
  exact before.symm

theorem held_refuse {jobs : List WriteJob} {job : WriteJob} {drainer : Nat} (found : s.drainers[drainer]? = some (job :: jobs))
    (futures : List (Future α)) : s.held.Perm (job :: { s with futures := futures, drainers := s.drainers.set drainer jobs }.held) := by
  unfold held
  have pulled := ((flatten_set found).append_left (s.foreground ++ s.background)).append_right s.writer.hand
  refine pulled.trans ?_
  simp only [List.append_assoc, List.cons_append]
  rw [← List.append_assoc, ← List.append_assoc s.foreground]
  exact List.perm_middle

theorem Moves.effect {broken : Bool} {sights : List Sight} (grounded : s.started = false → s.writer = .absent ∨ s.writer = .stopped)
    (moves : s.Moves action broken t sights) : s.Effect t broken := by
  cases moves with
  | start _ off =>
    refine .keeps ?_ rfl
    unfold held
    rcases grounded off with same | same
    all_goals rw [same]; rfl
  | putForeground _ label on admits =>
    refine .admits ⟨label, false, s.futures.length⟩ rfl ?_ rfl
    unfold held
    simp only [List.append_assoc, List.singleton_append]
    exact List.perm_middle
  | putBackground _ label maintenance on admits =>
    refine .admits ⟨label, maintenance, s.futures.length⟩ rfl ?_ rfl
    unfold held
    simp only [List.append_assoc, List.singleton_append]
    exact (List.perm_middle.append_left _).trans List.perm_middle
  | notify due =>
    refine .keeps ?_ (by simp)
    simp only [held, wake_foreground, wake_background, wake_drainers, wake_hand]
    exact List.Perm.refl _
  | cancel _ future => exact .cancels future (List.Perm.refl _) rfl
  | beginDraining =>
    refine .keeps ?_ rfl
    simp only [held, List.nil_append, List.flatten_append, List.flatten_cons, List.flatten_nil, List.append_nil]
    exact (List.perm_append_comm).append_right _
  | refuse drainer job jobs found unresolved => exact .resolves job _ (held_refuse found _) unresolved rfl
  | endDrain drainer found =>
    refine .keeps ?_ (by simp)
    simp only [held, wake_foreground, wake_background, wake_hand]
    exact ((flatten_eraseIdx found).symm.append_left _).append_right _
  | failDrain drainer job jobs found resolved =>
    refine .drops (job :: jobs) ?_ rfl (.inl rfl)
    unfold held
    have pulled := ((flatten_eraseIdx found).append_left (s.foreground ++ s.background)).append_right s.writer.hand
    refine pulled.trans ?_
    simp only [← List.append_assoc]
    exact (List.perm_append_comm.append_right _).append_right _ |>.trans (by simp)
  | opened stands | openFailed stands | select stands | rest stands | sleep stands | return_ stands | execute _ stands
  | returned _ _ _ stands | retried _ _ stands | raised _ _ _ stands =>
    exact .keeps (by simp only [held, stands]; rfl) rfl
  | stop stands =>
    rcases stands with stands | stands
    all_goals exact .keeps (by simp only [held, stands]; rfl) rfl
  | takeForeground job jobs stands first =>
    refine .keeps ?_ rfl
    simp only [held, stands, first, Writer.hand, List.append_nil, List.cons_append]
    exact List.perm_append_singleton _ _
  | takeBackground job jobs stands first =>
    refine .keeps ?_ rfl
    simp only [held, stands, first, Writer.hand, List.append_nil, List.append_assoc, List.cons_append]
    rw [← List.append_assoc jobs]
    exact (List.perm_append_singleton job (jobs ++ s.drainers.flatten)).append_left s.foreground
  | skip job stands dropped =>
    refine .drops [job] ?_ rfl (.inr fun other member => ?_)
    · simp only [held, stands, Writer.hand, List.append_nil]
      exact List.perm_append_comm
    · rw [List.mem_singleton.mp member]
      exact dropped
  | complete job value stands unresolved | fail job raised stands unresolved | exit job raised stands unresolved =>
    refine .resolves job _ ?_ unresolved rfl
    simp only [held, stands, Writer.hand, List.append_nil]
    exact List.perm_append_singleton _ _
  | break_ job outcome completed failed stands resolved =>
    refine .drops [job] ?_ rfl (.inl rfl)
    simp only [held, stands, Writer.hand, List.append_nil]
    exact List.perm_append_comm
  | drainOwn departure stands =>
    refine .keeps ?_ rfl
    simp only [held, stands, Writer.hand, List.nil_append, List.append_nil]
    exact List.perm_append_comm
  | refuseOwn departure job jobs stands unresolved =>
    refine .resolves job _ ?_ unresolved rfl
    simp only [held, stands, Writer.hand]
    exact List.perm_middle
  | failOwn departure job jobs stands resolved =>
    refine .drops (job :: jobs) ?_ rfl (.inl rfl)
    simp only [held, stands, Writer.hand, List.append_nil]
    exact List.perm_append_comm
  | endOwn departure stands started off =>
    exact .keeps (by simp only [held, stands]; rfl) rfl

/-! ### No job is in two places, and none that waits is settled -/

structure Sound (s : Coordinator α) : Prop where
  once : (s.held.map WriteJob.future).Nodup
  unsettled : ∀ job ∈ s.held, s.futures[job.future]? = some .pending ∨ s.futures[job.future]? = some .cancelled

theorem Sound.perm {same : List (Future α)} (sound : s.Sound) (moved : t.held.Perm s.held) (futures : t.futures = same)
    (kept : ∀ job ∈ s.held, same[job.future]? = some .pending ∨ same[job.future]? = some .cancelled) : t.Sound where
  once := ((moved.map _).nodup_iff).mpr sound.once
  unsettled := fun job member => futures ▸ kept job (moved.mem_iff.mp member)

theorem Sound.step {broken : Bool} (sound : s.Sound) (effect : s.Effect t broken) : t.Sound := by
  cases effect with
  | keeps same futures => exact sound.perm same futures sound.unsettled
  | cancels future same futures =>
    refine sound.perm same futures fun job member => ?_
    rw [List.getElem?_modify]
    rcases sound.unsettled job member with pending | cancelled
    · rw [pending]
      by_cases own : future = job.future
      · exact .inr (by simp [own, Future.cancel])
      · exact .inl (by simp [own])
    · rw [cancelled]
      exact .inr (by split <;> rfl)
  | admits job next grows futures =>
    have inside : ∀ other ∈ s.held, other.future < s.futures.length := by
      intro other member
      rcases sound.unsettled other member with found | found
      all_goals exact (List.getElem?_eq_some_iff.mp found).1
    constructor
    · refine ((grows.map _).nodup_iff).mpr (List.nodup_cons.mpr ⟨fun listed => ?_, sound.once⟩)
      obtain ⟨other, member, same⟩ := List.mem_map.mp listed
      exact absurd (inside other member) (by omega)
    · intro other member
      rw [futures]
      rcases List.mem_cons.mp (grows.mem_iff.mp member) with rfl | before
      · exact .inl (by simp [next])
      · rw [List.getElem?_append_left (inside other before)]
        exact sound.unsettled other before
  | resolves job outcome left unresolved futures =>
    have apart := ((left.map WriteJob.future).nodup_iff).mp sound.once
    rw [List.map_cons, List.nodup_cons] at apart
    refine ⟨apart.2, fun other member => ?_⟩
    have other_ : job.future ≠ other.future := fun same => apart.1 (same ▸ List.mem_map_of_mem member)
    rw [futures, List.getElem?_set_ne other_]
    exact sound.unsettled other (left.mem_iff.mpr (List.mem_cons_of_mem job member))
  | drops jobs left futures why =>
    have parts := ((left.map WriteJob.future).nodup_iff).mp sound.once
    rw [List.map_append, List.nodup_append] at parts
    exact ⟨parts.2.1, fun job member => futures ▸ sound.unsettled job (left.mem_iff.mpr (List.mem_append_right _ member))⟩

/-- An outcome stands. -/
theorem Effect.final {broken : Bool} (effect : s.Effect t broken) {future : Nat} {state : Future α} (found : s.futures[future]? = some state)
    (resolved : state ≠ .pending) : t.futures[future]? = some state := by
  cases effect with
  | keeps _ futures | drops _ _ futures => rw [futures, found]
  | cancels other _ futures =>
    rw [futures, List.getElem?_modify, found]
    cases state with
    | pending => exact absurd rfl resolved
    | cancelled | done => exact (by split <;> rfl)
  | admits _ _ _ futures => rw [futures, List.getElem?_append_left (List.getElem?_eq_some_iff.mp found).1, found]
  | resolves job _ _ unresolved futures =>
    have other : job.future ≠ future := by
      rintro rfl
      exact resolved (Option.some.inj (found.symm.trans unresolved))
    rw [futures, List.getElem?_set_ne other, found]

/-- Every future that is pending has a job that waits somewhere. -/
def Covered (s : Coordinator α) : Prop := ∀ future : Nat, s.futures[future]? = some .pending → ∃ job ∈ s.held, job.future = future

theorem Covered.step (covered : s.Covered) (effect : s.Effect t false) : t.Covered := by
  intro future pending
  cases effect with
  | keeps same futures =>
    obtain ⟨job, member, own⟩ := covered future (futures ▸ pending)
    exact ⟨job, same.mem_iff.mpr member, own⟩
  | cancels other same futures =>
    rw [futures, List.getElem?_modify] at pending
    have before : s.futures[future]? = some .pending := by
      cases found : s.futures[future]? with
      | none => simp [found] at pending
      | some state =>
        rw [found] at pending
        by_cases own : other = future
        · cases state <;> simp [own, Future.cancel] at pending
        · simpa [own] using pending
    obtain ⟨job, member, own⟩ := covered future before
    exact ⟨job, same.mem_iff.mpr member, own⟩
  | admits job next grows futures =>
    rw [futures] at pending
    by_cases inside : future < s.futures.length
    · rw [List.getElem?_append_left inside] at pending
      obtain ⟨other, member, own⟩ := covered future pending
      exact ⟨other, grows.mem_iff.mpr (List.mem_cons_of_mem job member), own⟩
    · have last : future < s.futures.length + 1 := by simpa using (List.getElem?_eq_some_iff.mp pending).1
      exact ⟨job, grows.mem_iff.mpr List.mem_cons_self, by omega⟩
  | resolves job outcome left unresolved futures =>
    rw [futures] at pending
    have other : job.future ≠ future := by
      rintro rfl
      have inside := (List.getElem?_eq_some_iff.mp unresolved).1
      rw [List.getElem?_set_self inside] at pending
      exact absurd pending (by simp)
    rw [List.getElem?_set_ne other] at pending
    obtain ⟨found, member, own⟩ := covered future pending
    rcases List.mem_cons.mp (left.mem_iff.mp member) with rfl | stays
    · exact absurd own other
    · exact ⟨found, stays, own⟩
  | drops jobs left futures why =>
    rw [futures] at pending
    obtain ⟨found, member, own⟩ := covered future pending
    rcases List.mem_append.mp (left.mem_iff.mp member) with dropped | stays
    · have cancelled := why.resolve_left nofun found dropped
      rw [own, pending] at cancelled
      exact absurd cancelled (by simp)
    · exact ⟨found, stays, own⟩

/-! ### Jobs that have not run -/

theorem unstarted_subset_held (s : Coordinator α) : s.unstarted ⊆ s.held := by
  intro job member
  unfold unstarted at member
  unfold held
  rcases List.mem_append.mp member with elsewhere | own
  · exact List.mem_append_left _ elsewhere
  · refine List.mem_append_right _ ?_
    cases stands : s.writer with
    | took | draining => rwa [stands] at own
    | _ =>
      rw [stands] at own
      exact absurd own (List.not_mem_nil)

/-- What a step does to the jobs that have not run: one of them is run or refused, or none is and at most a new one is added. -/
inductive Course (s t : Coordinator α) (sights : List Sight) : Prop where
  | quiet (unseen : ∀ sight ∈ sights, ∀ future, ¬ Sight.Spends sight future)
      (from_ : ∀ job ∈ t.unstarted, job ∈ s.unstarted ∨ job.future = s.futures.length ∧ s.futures.length < t.futures.length)
      (grows : s.futures.length ≤ t.futures.length)
  | spends (job : WriteJob) (sight : Sight) (own : job ∈ s.unstarted) (kept : ∀ other ∈ t.unstarted, other ∈ s.unstarted ∧ other.future ≠ job.future)
      (same : sights = [sight]) (seen : sight.Spends job.future) (grows : s.futures.length ≤ t.futures.length)

theorem Sound.apart (sound : s.Sound) {job : WriteJob} {rest : List WriteJob} (left : s.held.Perm (job :: rest)) :
    ∀ other ∈ rest, other.future ≠ job.future := by
  have nodup := ((left.map WriteJob.future).nodup_iff).mp sound.once
  rw [List.map_cons, List.nodup_cons] at nodup
  exact fun other member same => nodup.1 (same ▸ List.mem_map_of_mem member)

theorem Moves.course {broken : Bool} {sights : List Sight} (sound : s.Sound) (moves : s.Moves action broken t sights) : s.Course t sights := by
  have nothing : ∀ sight ∈ ([] : List Sight), ∀ future, ¬ sight.Spends future := nofun
  cases moves with
  | putForeground _ label on admits =>
    refine .quiet (by simp [Sight.Spends]) (fun job member => ?_) (by simp)
    simp only [unstarted, List.mem_append, List.mem_singleton] at member ⊢
    rcases member with (((before | rfl) | before) | before) | before
    · exact .inl (.inl (.inl (.inl before)))
    · exact .inr (by simp)
    · exact .inl (.inl (.inl (.inr before)))
    · exact .inl (.inl (.inr before))
    · exact .inl (.inr before)
  | putBackground _ label maintenance on admits =>
    refine .quiet (by simp [Sight.Spends]) (fun job member => ?_) (by simp)
    simp only [unstarted, List.mem_append, List.mem_singleton] at member ⊢
    rcases member with ((before | before | rfl) | before) | before
    · exact .inl (.inl (.inl (.inl before)))
    · exact .inl (.inl (.inl (.inr before)))
    · exact .inr (by simp)
    · exact .inl (.inl (.inr before))
    · exact .inl (.inr before)
  | notify due =>
    refine .quiet nothing (fun job member => .inl ?_) (by simp)
    have same : s.wake.unstarted = s.unstarted := by
      rcases wake_writer (s := s) with same | ⟨asleep, woken⟩
      · simp [unstarted, same]
      · simp [unstarted, asleep, woken, Writer.unstarted]
    rw [← same]
    exact member
  | cancel _ future => exact .quiet nothing (fun job member => .inl member) (by simp)
  | beginDraining =>
    refine .quiet (by simp [Sight.Spends]) (fun job member => .inl ?_) le_rfl
    simp only [unstarted, List.nil_append, List.flatten_append, List.flatten_cons, List.flatten_nil, List.append_nil, List.mem_append]
      at member ⊢
    tauto
  | refuse drainer job jobs found unresolved =>
    have listed := List.mem_of_getElem? found
    refine .spends job (.refused job.future) ?_ (fun other member => ⟨?_, ?_⟩) rfl (.inr rfl) (by simp)
    · exact List.mem_append_left _ (List.mem_append_right _ (List.mem_flatten.mpr ⟨_, listed, List.mem_cons_self⟩))
    · simp only [unstarted, List.mem_append] at member ⊢
      have within : other ∈ (s.drainers.set drainer jobs).flatten → other ∈ s.drainers.flatten :=
        fun inside => (flatten_set found).mem_iff.mpr (List.mem_cons_of_mem job inside)
      tauto
    · exact sound.apart (held_refuse found _) other (unstarted_subset_held _ member)
  | endDrain drainer found =>
    refine .quiet nothing (fun job member => .inl ?_) (by simp)
    have same : s.wake.unstarted = s.unstarted := by
      rcases wake_writer (s := s) with same | ⟨asleep, woken⟩
      · simp [unstarted, same]
      · simp [unstarted, asleep, woken, Writer.unstarted]
    rw [← same]
    simp only [unstarted, wake_drainers, List.mem_append] at member ⊢
    have within : job ∈ (s.drainers.eraseIdx drainer).flatten → job ∈ s.drainers.flatten :=
      fun inside => (flatten_eraseIdx found).mem_iff.mpr (List.mem_append_right _ inside)
    tauto
  | failDrain drainer _ _ found =>
    refine .quiet nothing (fun job member => .inl ?_) le_rfl
    simp only [unstarted, List.mem_append] at member ⊢
    have within : job ∈ (s.drainers.eraseIdx drainer).flatten → job ∈ s.drainers.flatten :=
      fun inside => (flatten_eraseIdx found).mem_iff.mpr (List.mem_append_right _ inside)
    tauto
  | opened stands | openFailed stands | returned _ _ _ stands | retried _ _ stands | raised _ _ _ stands | select stands | rest stands
  | sleep stands | return_ stands | skip _ stands | complete _ _ stands | fail _ _ stands | exit _ _ stands | break_ _ _ _ _ stands
  | failOwn _ _ _ stands | endOwn _ stands =>
    refine .quiet (by simp [Sight.Spends]) (fun job member => .inl ?_) (by simp)
    simp only [unstarted, Writer.unstarted, List.append_nil] at member
    exact List.mem_append_left _ member
  | start =>
    refine .quiet nothing (fun job member => .inl ?_) le_rfl
    simp only [unstarted, Writer.unstarted, List.append_nil] at member
    exact List.mem_append_left _ member
  | stop =>
    refine .quiet (by simp [Sight.Spends]) (fun job member => .inl ?_) le_rfl
    simp only [unstarted, Writer.unstarted, List.append_nil] at member
    exact List.mem_append_left _ member
  | takeForeground job jobs stands first | takeBackground job jobs stands first =>
    refine .quiet (by simp [Sight.Spends]) (fun other member => .inl ?_) le_rfl
    simp only [unstarted, Writer.unstarted, first, stands, List.mem_append, List.mem_cons] at member ⊢
    tauto
  | execute job stands =>
    have left : s.held.Perm (job :: (s.foreground ++ s.background ++ s.drainers.flatten)) := by
      simp only [held, stands, Writer.hand]
      exact List.perm_append_comm
    refine .spends job (.executed job.future) ?_ (fun other member => ?_) rfl (.inl rfl) le_rfl
    · simp [unstarted, stands, Writer.unstarted]
    · simp only [unstarted, Writer.unstarted, List.append_nil] at member
      exact ⟨List.mem_append_left _ member, sound.apart left other member⟩
  | drainOwn departure stands =>
    refine .quiet (by simp [Sight.Spends]) (fun job member => .inl ?_) le_rfl
    simp only [unstarted, Writer.unstarted, List.mem_append] at member ⊢
    tauto
  | refuseOwn departure job jobs stands unresolved =>
    have left : s.held.Perm (job :: (s.foreground ++ s.background ++ s.drainers.flatten ++ jobs)) := by
      simp only [held, stands, Writer.hand]
      exact List.perm_middle
    refine .spends job (.refused job.future) ?_ (fun other member => ?_) rfl (.inr rfl) (by simp)
    · simp [unstarted, stands, Writer.unstarted]
    · simp only [unstarted, Writer.unstarted] at member
      refine ⟨?_, sound.apart left other member⟩
      simp only [unstarted, stands, Writer.unstarted, List.mem_append, List.mem_cons] at member ⊢
      tauto

end Coordinator

/-! ### What has been seen of a job's future -/

theorem Sight.Spends.same {sight : Sight} {one other : Nat} (first : sight.Spends one) (second : sight.Spends other) : one = other := by
  rcases first with rfl | rfl
  all_goals rcases second with same | same
  all_goals cases same
  all_goals rfl

/-- Whether the writer is in the middle of the job of a future. -/
def Writer.running (future : Nat) : Writer α → Nat
  | .executing job _ => if job.future = future then 1 else 0
  | _ => 0

namespace Watched

variable {w : Watched α} {t : Coordinator α} {sights : List Sight} {action : Action α} {broken : Bool}

structure RunsOnce (w : Watched α) : Prop where
  unseen : ∀ future, w.now.futures.length ≤ future → ∀ sight ∈ w.seen, ¬ sight.Spends future
  unspent : ∀ job ∈ w.now.unstarted, ∀ sight ∈ w.seen, ¬ sight.Spends job.future
  once : ∀ future, w.seen.count (.executed future) + w.seen.count (.refused future) ≤ 1

theorem spent_count {seen : List Sight} {future : Nat} (unspent : ∀ sight ∈ seen, ¬ sight.Spends future) :
    seen.count (.executed future) = 0 ∧ seen.count (.refused future) = 0 :=
  ⟨List.count_eq_zero.mpr fun member => unspent _ member (.inl rfl), List.count_eq_zero.mpr fun member => unspent _ member (.inr rfl)⟩

theorem RunsOnce.step (sound : w.now.Sound) (course : w.now.Course t sights) (runs : w.RunsOnce) : RunsOnce ⟨t, w.seen ++ sights⟩ := by
  cases course with
  | quiet unseen from_ grows =>
    refine ⟨fun future beyond => ?_, fun job member => ?_, fun future => ?_⟩
    · exact List.forall_mem_append.mpr ⟨runs.unseen future (grows.trans beyond), fun sight here => unseen sight here future⟩
    · refine List.forall_mem_append.mpr ⟨?_, fun sight here => unseen sight here job.future⟩
      rcases from_ job member with before | ⟨new, _⟩
      · exact runs.unspent job before
      · exact runs.unseen job.future new.ge
    · obtain ⟨none_, nothing⟩ := spent_count fun sight here => unseen sight here future
      rw [List.count_append, List.count_append, none_, nothing]
      exact runs.once future
  | spends job sight own kept same seen grows =>
    subst same
    have inside : job.future < w.now.futures.length := by
      rcases sound.unsettled job (unstarted_subset_held _ own) with found | found
      all_goals exact (List.getElem?_eq_some_iff.mp found).1
    refine ⟨fun future beyond => ?_, fun other member => ?_, fun future => ?_⟩
    · refine List.forall_mem_append.mpr ⟨runs.unseen future (grows.trans beyond), List.forall_mem_singleton.mpr fun spends => ?_⟩
      have := seen.same spends
      have : t.futures.length ≤ future := beyond
      omega
    · obtain ⟨before, apart⟩ := kept other member
      exact List.forall_mem_append.mpr ⟨runs.unspent other before, List.forall_mem_singleton.mpr fun spends => apart (spends.same seen)⟩
    · rw [List.count_append, List.count_append]
      by_cases this : future = job.future
      · subst this
        obtain ⟨none_, nothing⟩ := spent_count (runs.unspent job own)
        rw [none_, nothing]
        rcases seen with rfl | rfl
        · simp
        · simp
      · have unspent : ∀ other ∈ [sight], ¬ other.Spends future :=
          List.forall_mem_singleton.mpr fun spends => this (spends.same seen)
        obtain ⟨none_, nothing⟩ := spent_count unspent
        rw [none_, nothing]
        exact runs.once future

/-- What the writer and the futures say of a job is what has been seen of it. -/
structure Truthful (w : Watched α) : Prop where
  runs : ∀ future, w.seen.count (.returned future) + w.now.writer.running future ≤ w.seen.count (.executed future)
  returned : ∀ job value, w.now.writer = .settling job (.ok value) → Sight.returned job.future ∈ w.seen
  raised : ∀ job exc, w.now.writer = .settling job (.error exc) → Sight.returned job.future ∉ w.seen
  results : ∀ (future : Nat) value, w.now.futures[future]? = some (.done (.ok value)) → Sight.returned future ∈ w.seen
  errors : ∀ (future : Nat) exc, w.now.futures[future]? = some (.done (.error exc)) → Sight.returned future ∉ w.seen
  refusals : ∀ (future : Nat), Sight.refused future ∈ w.seen → w.now.futures[future]? = some (.done (.error shuttingDown))

/-- Steps that end no run of a closure and settle no future. -/
theorem Truthful.quiet (truthful : w.Truthful) (unseen : ∀ sight ∈ sights, ∀ future, ¬ sight.Spends future ∧ sight ≠ .returned future)
    (outcomes : ∀ (future : Nat) outcome, t.futures[future]? = some (.done outcome) ↔ w.now.futures[future]? = some (.done outcome))
    (running : ∀ future, t.writer.running future ≤ w.now.writer.running future)
    (settling : ∀ job outcome, t.writer = .settling job outcome → w.now.writer = .settling job outcome) :
    Truthful ⟨t, w.seen ++ sights⟩ := by
  have still : ∀ future, Sight.returned future ∈ w.seen ++ sights ↔ Sight.returned future ∈ w.seen := fun future =>
    ⟨fun member => (List.mem_append.mp member).resolve_right fun here => (unseen _ here future).2 rfl, List.mem_append_left _⟩
  refine ⟨fun future => ?_, ?_, ?_, ?_, ?_, ?_⟩
  · have none_ : sights.count (.returned future) = 0 := List.count_eq_zero.mpr fun here => (unseen _ here future).2 rfl
    rw [List.count_append, List.count_append, none_]
    exact (Nat.add_le_add_left (running future) _).trans ((truthful.runs future).trans (Nat.le_add_right _ _))
  · exact fun job value stands => (still _).mpr (truthful.returned job value (settling _ _ stands))
  · exact fun job exc stands => mt (still _).mp (truthful.raised job exc (settling _ _ stands))
  · exact fun future value found => (still _).mpr (truthful.results future value ((outcomes _ _).mp found))
  · exact fun future exc found => mt (still _).mp (truthful.errors future exc ((outcomes _ _).mp found))
  · intro future member
    rcases List.mem_append.mp member with before | here
    · exact (outcomes _ _).mpr (truthful.refusals future before)
    · exact absurd (.inr rfl) (unseen _ here future).1

/-- Steps that settle the future of a job. -/
theorem Truthful.sets {job : WriteJob} {outcome : Except Raised α} (truthful : w.Truthful)
    (unresolved : w.now.futures[job.future]? = some .pending) (futures : t.futures = w.now.futures.set job.future (.done outcome))
    (ok : ∀ value, outcome = .ok value → Sight.returned job.future ∈ w.seen)
    (error : ∀ exc, outcome = .error exc → Sight.returned job.future ∉ w.seen)
    (unreturned : ∀ future, Sight.returned future ∉ sights)
    (refused : ∀ future, Sight.refused future ∈ sights → future = job.future ∧ outcome = .error shuttingDown)
    (running : ∀ future, t.writer.running future ≤ w.now.writer.running future)
    (settling : ∀ job outcome, t.writer = .settling job outcome → w.now.writer = .settling job outcome) :
    Truthful ⟨t, w.seen ++ sights⟩ := by
  have still : ∀ future, Sight.returned future ∈ w.seen ++ sights ↔ Sight.returned future ∈ w.seen := fun future =>
    ⟨fun member => (List.mem_append.mp member).resolve_right (unreturned future), List.mem_append_left _⟩
  have inside := (List.getElem?_eq_some_iff.mp unresolved).1
  have outcomes : ∀ (future : Nat) other, t.futures[future]? = some (.done other) →
      (future = job.future ∧ other = outcome) ∨ w.now.futures[future]? = some (.done other) := by
    intro future other found
    rw [futures] at found
    by_cases own : job.future = future
    · subst own
      rw [List.getElem?_set_self inside] at found
      cases found
      exact .inl ⟨rfl, rfl⟩
    · rw [List.getElem?_set_ne own] at found
      exact .inr found
  refine ⟨fun future => ?_, ?_, ?_, ?_, ?_, ?_⟩
  · rw [List.count_append, List.count_append, List.count_eq_zero.mpr (unreturned future)]
    exact (Nat.add_le_add_left (running future) _).trans ((truthful.runs future).trans (Nat.le_add_right _ _))
  · exact fun job value stands => (still _).mpr (truthful.returned job value (settling _ _ stands))
  · exact fun job exc stands => mt (still _).mp (truthful.raised job exc (settling _ _ stands))
  · intro future value found
    rcases outcomes future _ found with ⟨rfl, same⟩ | before
    · exact (still _).mpr (ok value same.symm)
    · exact (still _).mpr (truthful.results future value before)
  · intro future exc found
    rcases outcomes future _ found with ⟨rfl, same⟩ | before
    · exact mt (still _).mp (error exc same.symm)
    · exact mt (still _).mp (truthful.errors future exc before)
  · intro future member
    change t.futures[future]? = _
    rw [futures]
    rcases List.mem_append.mp member with before | here
    · have found := truthful.refusals future before
      have other : job.future ≠ future := by
        rintro rfl
        exact absurd (found.symm.trans unresolved) (by simp)
      rw [List.getElem?_set_ne other, found]
    · obtain ⟨rfl, rfl⟩ := refused future here
      rw [List.getElem?_set_self inside]

theorem outcome_cancel {futures : List (Future α)} (cancelled future : Nat) (outcome : Except Raised α) :
    (futures.modify cancelled Future.cancel)[future]? = some (.done outcome) ↔ futures[future]? = some (.done outcome) := by
  rw [List.getElem?_modify]
  cases futures[future]? with
  | none => simp
  | some state =>
    cases state with
    | done => simp [Future.cancel]
    | _ =>
      simp only [Future.cancel, Option.map_eq_map, Option.map_some, Option.some.injEq, reduceCtorEq, iff_false]
      split <;> exact nofun

theorem outcome_append {futures : List (Future α)} (future : Nat) (outcome : Except Raised α) :
    (futures ++ [.pending])[future]? = some (.done outcome) ↔ futures[future]? = some (.done outcome) := by
  rw [List.getElem?_append]
  split
  · rfl
  · rename_i beyond
    rw [List.getElem?_eq_none (Nat.not_lt.mp beyond)]
    cases future - futures.length <;> simp

theorem Truthful.unreturned (truthful : w.Truthful) (runs : w.RunsOnce) {job : WriteJob} (own : job ∈ w.now.unstarted) :
    Sight.returned job.future ∉ w.seen := by
  have none_ := (spent_count (runs.unspent job own)).1
  have before := truthful.runs job.future
  exact List.count_eq_zero.mp (by omega)

theorem Truthful.step (sound : w.now.Sound) (runs : w.RunsOnce) (truthful : w.Truthful) (moves : w.now.Moves action broken t sights) :
    Truthful ⟨t, w.seen ++ sights⟩ := by
  have same : ∀ (future : Nat) outcome, w.now.futures[future]? = some (.done outcome) ↔ w.now.futures[future]? = some (.done outcome) :=
    fun _ _ => Iff.rfl
  cases moves with
  | cancel _ future => exact truthful.quiet nofun (outcome_cancel future) (fun _ => le_rfl) fun _ _ => id
  | putForeground | putBackground => exact truthful.quiet (by simp [Sight.Spends]) outcome_append (fun _ => le_rfl) fun _ _ => id
  | beginDraining | failDrain => exact truthful.quiet (by simp [Sight.Spends]) same (fun _ => le_rfl) fun _ _ => id
  | notify | endDrain =>
    refine truthful.quiet nofun (fun _ _ => by simp) (fun future => ?_) fun job outcome stands => ?_
    · rcases wake_writer (s := w.now) with same | ⟨asleep, woken⟩
      · exact same ▸ le_rfl
      · exact woken ▸ Nat.zero_le _
    · rcases wake_writer (s := w.now) with same | ⟨asleep, woken⟩
      · exact same ▸ stands
      · exact absurd (woken.symm.trans stands) nofun
  | start | opened | openFailed | stop | select | takeForeground | takeBackground | rest | sleep | return_ | skip | break_ | drainOwn | failOwn | endOwn =>
    exact truthful.quiet (by simp [Sight.Spends]) same (fun _ => Nat.zero_le _) nofun
  | retried job attempt stands =>
    exact truthful.quiet nofun same (fun _ => by rw [stands]; rfl) nofun
  | execute job stands =>
    have still : ∀ future, Sight.returned future ∈ w.seen ++ [.executed job.future] ↔ Sight.returned future ∈ w.seen := by simp
    refine ⟨fun future => ?_, nofun, nofun, ?_, ?_, ?_⟩
    · have before := truthful.runs future
      rw [List.count_append, List.count_append]
      simp only [Writer.running]
      by_cases own : job.future = future
      · subst own
        simp only [List.count_singleton_self, if_pos]
        simp
        omega
      · simp [own]
        omega
    · exact fun future value found => (still future).mpr (truthful.results future value found)
    · exact fun future exc found => mt (still future).mp (truthful.errors future exc found)
    · exact fun future member => truthful.refusals future (by simpa using member)
  | returned job attempt value stands =>
    have held : job ∈ w.now.held := by simp [Coordinator.held, stands, Writer.hand]
    refine ⟨fun future => ?_, ?_, nofun, ?_, ?_, ?_⟩
    · have before := truthful.runs future
      rw [stands] at before
      rw [List.count_append, List.count_append]
      simp only [Writer.running] at before ⊢
      by_cases own : job.future = future
      · subst own
        simp at before ⊢
        omega
      · simp [own] at before ⊢
        omega
    · rintro other value' same
      cases same
      exact List.mem_append_right _ List.mem_cons_self
    · exact fun future value found => List.mem_append_left _ (truthful.results future value found)
    · intro future exc found member
      rcases List.mem_append.mp member with before | here
      · exact truthful.errors future exc found before
      · cases List.mem_singleton.mp here
        rcases sound.unsettled job held with open_ | open_
        all_goals exact absurd (found.symm.trans open_) (by simp)
    · exact fun future member => truthful.refusals future (by simpa using member)
  | raised job attempt exc stands =>
    have before := truthful.runs job.future
    have once := runs.once job.future
    rw [stands] at before
    simp only [Writer.running, if_pos] at before
    have none_ : Sight.returned job.future ∉ w.seen := List.count_eq_zero.mp (by omega)
    refine ⟨fun future => ?_, nofun, ?_, ?_, ?_, ?_⟩
    · rw [List.append_nil]
      exact (Nat.le_add_right _ _).trans (truthful.runs future)
    · rintro other exc' same
      cases same
      rwa [List.append_nil]
    · exact fun future value found => List.mem_append_left _ (truthful.results future value found)
    · exact fun future exc found => by
        rw [List.append_nil]
        exact truthful.errors future exc found
    · exact fun future member => truthful.refusals future (by simpa using member)
  | refuse drainer job jobs found unresolved =>
    have own : job ∈ w.now.unstarted :=
      List.mem_append_left _ (List.mem_append_right _ (List.mem_flatten.mpr ⟨_, List.mem_of_getElem? found, List.mem_cons_self⟩))
    exact truthful.sets unresolved rfl nofun (fun _ _ => truthful.unreturned runs own) (by simp) (by simp +contextual) (fun _ => le_rfl)
      fun _ _ => id
  | refuseOwn departure job jobs stands unresolved =>
    have own : job ∈ w.now.unstarted := by simp [unstarted, stands, Writer.unstarted]
    exact truthful.sets unresolved rfl nofun (fun _ _ => truthful.unreturned runs own) (by simp) (by simp +contextual)
      (fun _ => Nat.zero_le _) nofun
  | complete job value stands unresolved =>
    exact truthful.sets unresolved rfl (fun _ _ => truthful.returned job value stands) nofun nofun nofun (fun _ => Nat.zero_le _) nofun
  | fail job exc stands unresolved =>
    exact truthful.sets unresolved rfl nofun (fun _ _ => truthful.raised job exc stands) nofun nofun (fun _ => Nat.zero_le _) nofun
  | exit job exc stands unresolved =>
    exact truthful.sets unresolved rfl nofun (fun _ _ => truthful.raised job exc stands) (by simp) (by simp) (fun _ => Nat.zero_le _) nofun

theorem sound_fresh : (Coordinator.fresh : Coordinator α).Sound := ⟨List.nodup_nil, nofun⟩

/-- All that every move keeps. -/
structure Kept (w : Watched α) : Prop where
  grounded : w.Grounded
  sound : w.now.Sound
  runs : w.RunsOnce
  truthful : w.Truthful

theorem Kept.step (kept : w.Kept) (moves : w.now.Moves action broken t sights) : Kept ⟨t, w.seen ++ sights⟩ where
  grounded := kept.grounded.step moves
  sound := kept.sound.step (moves.effect kept.grounded)
  runs := kept.runs.step kept.sound (moves.course kept.sound)
  truthful := kept.truthful.step kept.sound kept.runs moves

theorem kept_fresh : (fresh : Watched α).Kept where
  grounded := fun _ => .inl rfl
  sound := sound_fresh
  runs := ⟨fun _ _ => nofun, fun _ _ => nofun, fun _ => Nat.zero_le 1⟩
  truthful := ⟨fun _ => le_rfl, nofun, nofun, nofun, nofun, nofun⟩

theorem Kept.next (kept : w.Kept) (action : Action α) : (w.next action).Kept :=
  next_invariant (fun _ _ _ _ _ holds moves => holds.step moves) w action kept

theorem kept (actions : List (Action α)) : (actions.foldl Watched.next fresh).Kept :=
  invariant kept_fresh (fun _ _ _ _ _ holds moves => holds.step moves) actions

theorem final {future : Nat} {state : Future α} (resolved : state ≠ .pending) (later : List (Action α)) (holds : w.Kept)
    (found : w.now.futures[future]? = some state) : (later.foldl Watched.next w).now.futures[future]? = some state := by
  have step : ∀ (v : Watched α) (action : Action α), v.Kept ∧ v.now.futures[future]? = some state →
      (v.next action).Kept ∧ (v.next action).now.futures[future]? = some state :=
    next_invariant fun _ _ _ _ _ both moves => ⟨both.1.step moves, (moves.effect both.1.grounded).final both.2 resolved⟩
  exact (final_of_step step ⟨holds, found⟩ later).2

/-- Over any run of submissions, cancellations, failures and drains, a job is run at most once or refused, never both; a future
holds a result exactly of a closure that came to its end, an exception only of one that did not, and the refusal of every job
that was refused; and an outcome stands whatever follows. -/
theorem settles_once (actions later : List (Action α)) (future : Nat) :
    (actions.foldl Watched.next fresh).seen.count (.executed future) + (actions.foldl Watched.next fresh).seen.count (.refused future) ≤ 1 ∧
      (∀ value, (actions.foldl Watched.next fresh).now.futures[future]? = some (.done (.ok value)) →
        Sight.returned future ∈ (actions.foldl Watched.next fresh).seen) ∧
      (∀ exc, (actions.foldl Watched.next fresh).now.futures[future]? = some (.done (.error exc)) →
        Sight.returned future ∉ (actions.foldl Watched.next fresh).seen) ∧
      (Sight.refused future ∈ (actions.foldl Watched.next fresh).seen →
        (actions.foldl Watched.next fresh).now.futures[future]? = some (.done (.error shuttingDown))) ∧
      ∀ state, (actions.foldl Watched.next fresh).now.futures[future]? = some state → state ≠ .pending →
        ((actions ++ later).foldl Watched.next fresh).now.futures[future]? = some state := by
  have holds := kept actions
  refine ⟨holds.runs.once future, holds.truthful.results future, holds.truthful.errors future, holds.truthful.refusals future, ?_⟩
  intro state found resolved
  rw [List.foldl_append]
  exact final resolved later holds found

end Watched

end SaltMdb
