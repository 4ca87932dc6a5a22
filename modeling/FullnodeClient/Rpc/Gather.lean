import FullnodeClient.Rpc.Upstream

/-!
# Batches of requests to other hosts

A batch whose handlers ask other hosts. The requests of all its elements take their steps in any order, the
documents of the handlers come back to the batch one by one, and the last one makes it answer.
-/

namespace FullnodeClient.Rpc
open FullnodeClient.Lib FullnodeClient.Text

structure Gather where
  batch : Batch
  -- The handlers that had not completed when `process` ended, with the positions of their elements.
  courses : List (Nat × Course)

def Flow.result (stringify : Json → Bytes) : Flow → HandlerResult
  | reply doc => .complete (stringify doc)
  | ask _ _ _ _ | undefined => .pending

namespace Gather

structure Label where
  which : Nat
  label : Course.Label

def start (wire : Wire) (flows : Nat → Flow) (pooled : Nat → Bool) (array : List Json) : Gather :=
  let batch := Batch.process wire.toService (fun i => (flows i).result wire.stringify) array
  ⟨batch, batch.pending.map fun i => (i, (flows i).start (pooled i))⟩

def step (wire : Wire) (s : Gather) (l : Label) : Option Gather :=
  (s.courses[l.which]?).bind fun (i, course) =>
    (course.step l.label).bind fun course' =>
      let courses := s.courses.set l.which (i, course')
      match course'.replies.drop course.replies.length with
      | [] => some { s with courses := courses }
      | doc :: _ => (Batch.sendJson wire.toService s.batch (i, wire.stringify doc)).map fun batch => ⟨batch, courses⟩

end Gather

namespace Batch

variable {service : Service} {results : Nat → HandlerResult} {i : Nat} {v : Json} {array : List Json}
  {batch after : Batch} {writer writer' : Json} {finished : Bool}

theorem element_pending (round : element service results i v batch writer = some (after, writer')) :
    after.pending = batch.pending ∨ results i = .pending ∧ after.pending = batch.pending ++ [i] := by
  unfold element at round
  split at round
  case isTrue =>
    cases round
    exact .inl rfl
  case isFalse =>
    split at round
    case h_1 =>
      cases round
      exact .inl rfl
    case h_2 =>
      split at round
      case isTrue =>
        cases round
        exact .inl rfl
      case isFalse =>
        split at round
        case isTrue =>
          obtain ⟨id, -, refused⟩ := Option.map_eq_some_iff.mp round
          cases refused
          exact .inl rfl
        case isFalse =>
          split at round
          case h_1 =>
            cases round
            exact .inl rfl
          case h_2 pending =>
            cases round
            exact .inr ⟨pending, rfl⟩

theorem elements_pending (looped : elements service results i array batch writer = (after, finished))
    (before : ∀ j ∈ batch.pending, results j = .pending) : ∀ j ∈ after.pending, results j = .pending := by
  induction array generalizing i batch writer with
  | nil =>
      cases looped
      exact before
  | cons v rest ih =>
      simp only [elements] at looped
      cases round : element service results i v batch writer with
      | none =>
          rw [round] at looped
          cases looped
          exact before
      | some next =>
          rw [round] at looped
          refine ih looped fun j inside => ?_
          rcases element_pending round with same | ⟨pending, grown⟩
          · exact before j (same ▸ inside)
          · rw [grown, List.mem_append, List.mem_singleton] at inside
            rcases inside with earlier | rfl
            · exact before j earlier
            · exact pending

theorem sendIfComplete_pending (batch : Batch) : batch.sendIfComplete.pending = batch.pending := by
  unfold sendIfComplete
  split <;> rfl

theorem process_pending (results : Nat → HandlerResult) :
    ∀ j ∈ (process service results array).pending, results j = .pending := by
  unfold process
  split
  case isTrue => simp
  case isFalse =>
    rcases looped : elements service results 0 array ⟨array.length, [], [], []⟩ Writer.initial with ⟨batch, finished⟩
    have pending := elements_pending looped (by simp)
    cases finished with
    | true =>
        simpa only [sendIfComplete_pending] using pending
    | false => exact pending

theorem expected_length_le (i : Nat) (array : List Json) : (expected i array).length ≤ array.length := by
  rw [expected, List.length_map]
  exact (List.length_filter_le _ _).trans List.length_zipIdx.le

end Batch

/-! ## Handlers side by side -/

inductive Funded : List Course → Nat → Prop
  | nil (n : Nat) : Funded [] n
  | cons {flow : Flow} {course : Course} {rest : List Course} {m k n : Nat}
      (traced : Traced m flow course.asked course.replies course.undefined) (later : Funded rest k)
      (fits : m + k ≤ n) : Funded (course :: rest) n

section
variable {courses more : List Course} {n m which : Nat} {course course' : Course} {l : Course.Label}

theorem Funded.step (funded : Funded courses n) (here : courses[which]? = some course)
    (stepped : course.step l = some course') : 0 < n ∧ Funded (courses.set which course') (n - 1) := by
  induction funded generalizing which with
  | nil n => simp at here
  | @cons flow first rest m k n traced later fits ih =>
      cases which with
      | zero =>
          cases Option.some.inj here
          obtain ⟨positive, traced⟩ := traced.step stepped
          exact ⟨by omega, .cons traced later (by omega)⟩
      | succ which =>
          obtain ⟨positive, later⟩ := ih here
          exact ⟨by omega, .cons traced later (by omega)⟩

theorem Funded.traced (funded : Funded courses n) (inside : course ∈ courses) :
    ∃ m flow, Traced m flow course.asked course.replies course.undefined := by
  induction funded with
  | nil n => cases inside
  | cons traced later fits ih =>
      rcases List.mem_cons.mp inside with rfl | inside
      · exact ⟨_, _, traced⟩
      · exact ih inside

theorem Funded.mono (funded : Funded courses n) (le : n ≤ m) : Funded courses m := by
  cases funded with
  | nil => exact .nil m
  | cons traced later fits => exact .cons traced later (fits.trans le)

theorem Funded.start {flows : Nat → Flow} (bounded : ∀ i, (flows i).Bounded n) (pooled : Nat → Bool)
    (pending : List Nat) : Funded (pending.map fun i => (flows i).start (pooled i)) (n * pending.length) := by
  induction pending with
  | nil => exact .nil _
  | cons i rest ih =>
      refine .cons ((bounded i).start (pooled i)) ih ?_
      rw [List.length_cons, Nat.mul_succ, Nat.add_comm]

theorem replies_step (funded : Funded courses n) (here : courses[which]? = some course)
    (stepped : course.step l = some course') :
    course'.replies = course.replies ∨ course.replies = [] ∧ ∃ doc, course'.replies = [doc] := by
  obtain ⟨m, flow, traced⟩ := funded.traced (List.mem_of_getElem? here)
  have few := (traced.step stepped).2.replies_le
  obtain ⟨ask, request, -, -, rfl⟩ := Course.step_eq_some.mp stepped
  split at few
  case isFalse same =>
    rw [if_neg same]
    exact .inl rfl
  case isTrue more =>
    rw [if_pos more]
    simp only [Course.append, List.length_append] at few ⊢
    generalize ((ask.next request.result).start l.pooled).replies = replies at few ⊢
    cases replies with
    | nil => exact .inl (List.append_nil _)
    | cons doc rest =>
        simp only [List.length_cons] at few
        have none : course.replies = [] := List.eq_nil_of_length_eq_zero (by omega)
        have single : rest = [] := List.eq_nil_of_length_eq_zero (by omega)
        exact .inr ⟨none, doc, by rw [none, single, List.nil_append]⟩

theorem Funded.of_stuck (funded : Funded courses n) (inside : course ∈ courses)
    (stuck : ∀ label, course.step label = none) :
    course.replies ≠ [] ∨ course.undefined = true ∨ ∃ ask ∈ course.asked, ask.request.thrown = true := by
  obtain ⟨m, flow, traced⟩ := funded.traced inside
  refine (traced.of_stuck (Course.stuck_requests stuck)).imp_left fun one none => ?_
  rw [none] at one
  cases one

end

def unanswered {κ : Type} (courses : List (κ × Course)) : List κ :=
  (courses.filter fun entry => entry.2.replies.isEmpty).map Prod.fst

section
variable {κ : Type} {courses : List (κ × Course)} {which : Nat} {i : κ} {course course' : Course}

theorem unanswered_set (here : courses[which]? = some (i, course)) (same : course'.replies = course.replies) :
    unanswered (courses.set which (i, course')) = unanswered courses := by
  induction courses generalizing which with
  | nil => simp at here
  | cons first rest ih =>
      cases which with
      | zero =>
          cases Option.some.inj here
          simp [unanswered, List.filter_cons, same]
          split <;> rfl
      | succ which =>
          have later := ih here
          simp only [unanswered, List.set_cons_succ, List.filter_cons] at later ⊢
          split <;> simp [later]

theorem unanswered_perm (here : courses[which]? = some (i, course)) (silent : course.replies = [])
    (answered : course'.replies ≠ []) :
    (unanswered courses).Perm (i :: unanswered (courses.set which (i, course'))) := by
  induction courses generalizing which with
  | nil => simp at here
  | cons first rest ih =>
      cases which with
      | zero =>
          cases Option.some.inj here
          simp [unanswered, silent, answered]
      | succ which =>
          have later := ih here
          simp only [unanswered, List.set_cons_succ, List.filter_cons] at later ⊢
          split
          · exact (later.cons _).trans (.swap _ _ _)
          · exact later

theorem unanswered_start {flows : Nat → Flow} {stringify : Json → Bytes} {pending : List Nat} (key : Nat → κ)
    (pooled : Nat → Bool) (silent : ∀ i ∈ pending, (flows i).result stringify = .pending) :
    unanswered (pending.map fun i => (key i, (flows i).start (pooled i))) = pending.map key := by
  rw [unanswered, List.filter_eq_self.mpr, List.map_map]
  · rfl
  · simp only [List.forall_mem_map]
    intro i inside
    have pending := silent i inside
    cases flow : flows i with
    | reply doc => simp [flow, Flow.result] at pending
    | ask client path body next => rfl
    | undefined => rfl

theorem courses_getElem? (here : courses[which]? = some (i, course)) :
    (courses.map Prod.snd)[which]? = some course := by simp [here]

end

namespace Gather

structure Sound (array : List Json) (n : Nat) (s : Gather) : Prop where
  accounted : Batch.Accounted array s.batch
  waiting : s.batch.pending.Perm (unanswered s.courses)
  funded : Funded (s.courses.map Prod.snd) n

section
variable {wire : Wire} {flows : Nat → Flow} {array : List Json} {n : Nat} {s s' : Gather} {l : Label}
  {which i : Nat} {course course' : Course}

theorem Sound.step_course (sound : s.Sound array n) {label : Course.Label}
    (here : s.courses[which]? = some (i, course)) (moved : course.step label = some course') :
    ∃ s', s.step wire ⟨which, label⟩ = some s' := by
  simp only [Gather.step, here, moved, Option.bind_some]
  rcases replies_step sound.funded (courses_getElem? here) moved with same | ⟨silent, doc, answered⟩
  · simp [same]
  · have spoken : course'.replies ≠ [] := by simp [answered]
    have waiting : i ∈ s.batch.pending :=
      sound.waiting.mem_iff.mpr ((unanswered_perm here silent spoken).mem_iff.mpr List.mem_cons_self)
    simp [silent, answered, Batch.sendJson, waiting]

theorem Sound.step (sound : s.Sound array n) (stepped : s.step wire l = some s') :
    0 < n ∧ s'.Sound array (n - 1) := by
  simp only [Gather.step, Option.bind_eq_some_iff] at stepped
  obtain ⟨⟨i, course⟩, here, course', moved, stepped⟩ := stepped
  obtain ⟨positive, funded⟩ := sound.funded.step (courses_getElem? here) moved
  rw [← List.map_set (f := Prod.snd) (a := (i, course'))] at funded
  refine ⟨positive, ?_⟩
  rcases replies_step sound.funded (courses_getElem? here) moved with same | ⟨silent, doc, answered⟩
  · simp only [same, List.drop_length, Option.some.injEq] at stepped
    subst stepped
    exact ⟨sound.accounted, (unanswered_set here same).symm ▸ sound.waiting, funded⟩
  · simp only [silent, answered, List.length_nil, List.drop_zero, Option.map_eq_some_iff] at stepped
    obtain ⟨batch, sent, rfl⟩ := stepped
    refine ⟨sound.accounted.step sent, ?_, funded⟩
    obtain ⟨-, entry, rfl⟩ := Batch.sendJson_eq_some sent
    have spoken : course'.replies ≠ [] := by simp [answered]
    have fewer := (sound.waiting.trans (unanswered_perm here silent spoken)).erase i
    rw [List.erase_cons_head] at fewer
    simpa only [Batch.sendIfComplete_pending, Batch.push] using fewer

theorem Sound.start (bounded : ∀ i, (flows i).Bounded n) (pooled : Nat → Bool) (inhabited : array ≠ [])
    (safe : ∀ v ∈ array, ¬Batch.Throws wire.toService v) :
    (Gather.start wire flows pooled array).Sound array (n * array.length) := by
  have accounted : Batch.Accounted array (Gather.start wire flows pooled array).batch :=
    Batch.process_accounted _ inhabited safe
  refine ⟨accounted, ?_, ?_⟩
  · have silent := @Batch.process_pending wire.toService array fun i => (flows i).result wire.stringify
    simp only [Gather.start]
    rw [unanswered_start (fun i => i) pooled silent, List.map_id']
  · have funded := Funded.start bounded pooled (Gather.start wire flows pooled array).batch.pending
    rw [Gather.start, List.map_map]
    refine funded.mono (Nat.mul_le_mul_left n ?_)
    have counted := accounted.claimed.length_eq
    have few := Batch.expected_length_le 0 array
    rw [Batch.claimed_length] at counted
    simp only [Gather.start] at counted ⊢
    omega

theorem Sound.run {labels : List Label} (sound : s.Sound array n)
    (ran : runAllowed (Gather.step wire) (fun _ _ => True) s labels = some s') :
    labels.length ≤ n ∧ s'.Sound array (n - labels.length) := by
  induction labels generalizing n s with
  | nil =>
      cases Option.some.inj ran
      exact ⟨Nat.zero_le _, sound⟩
  | cons l labels ih =>
      simp only [runAllowed, if_true] at ran
      obtain ⟨next, stepped, rest⟩ := Option.bind_eq_some_iff.mp ran
      obtain ⟨positive, sound⟩ := sound.step stepped
      obtain ⟨bounded, sound⟩ := ih sound rest
      rw [List.length_cons, Nat.add_comm, ← Nat.sub_sub]
      exact ⟨by omega, sound⟩

theorem Sound.of_stuck (sound : s.Sound array n) (stuck : ∀ l, s.step wire l = none) :
    s.batch.pending = [] ∨
      ∃ entry ∈ s.courses, entry.2.undefined = true ∨ ∃ ask ∈ entry.2.asked, ask.request.thrown = true := by
  by_contra wrong
  rw [not_or] at wrong
  obtain ⟨some, clean⟩ := wrong
  obtain ⟨i, waiting⟩ := List.exists_mem_of_ne_nil _ some
  obtain ⟨entry, inside, -⟩ := List.mem_map.mp (sound.waiting.mem_iff.mp waiting)
  obtain ⟨member, silent⟩ := List.mem_filter.mp inside
  obtain ⟨which, bound, found⟩ := List.getElem_of_mem member
  have here : s.courses[which]? = .some entry := by rw [List.getElem?_eq_getElem bound, found]
  have still : ∀ label, entry.2.step label = none := by
    intro label
    by_contra moves
    obtain ⟨course', moved⟩ := Option.ne_none_iff_exists'.mp moves
    obtain ⟨s', stepped⟩ : ∃ s', s.step wire ⟨which, label⟩ = .some s' := sound.step_course here moved
    cases stepped.symm.trans (stuck _)
  rcases sound.funded.of_stuck (List.mem_map_of_mem member) still with spoken | unclear | thrown
  · exact spoken (List.isEmpty_iff.mp silent)
  · exact clean ⟨entry, member, .inl unclear⟩
  · exact clean ⟨entry, member, .inr thrown⟩

theorem batch_of_requests_answered (wire : Wire) (flows : Nat → Flow) (bounded : ∀ i, (flows i).Bounded n)
    (pooled : Nat → Bool) (array : List Json) (inhabited : array ≠ [])
    (safe : ∀ v ∈ array, ¬Batch.Throws wire.toService v) (labels : List Label) (s : Gather)
    (ran : runAllowed (step wire) (fun _ _ => True) (start wire flows pooled array) labels = some s) :
    labels.length ≤ n * array.length ∧ s.batch.sent.length ≤ 1 ∧
      (∀ which i course label course', s.courses[which]? = some (i, course) → course.step label = some course' →
        ∃ s', s.step wire ⟨which, label⟩ = some s') ∧
      ((∀ entry ∈ s.courses, ∀ ask ∈ entry.2.asked, ask.client.useSsl = false) → (∀ l, s.step wire l = none) →
        (∃ entries, s.batch.sent = [.array entries] ∧ (entries.map Prod.fst).Perm (Batch.expected 0 array)) ∨
          ∃ entry ∈ s.courses, entry.2.undefined = true ∨ ∃ ask ∈ entry.2.asked, ask.request.thrown = true) := by
  obtain ⟨steps, sound⟩ := (Sound.start bounded pooled inhabited safe).run ran
  have sent := sound.accounted.sent
  refine ⟨steps, (Batch.Fate.accounted sound.accounted).sent_le,
    fun which i course label course' here moved => sound.step_course here moved, fun _ stuck => ?_⟩
  rcases sound.of_stuck stuck with none | wrong
  · rw [if_pos none] at sent
    exact .inl ⟨_, sent, by simpa [Batch.claimed, none] using sound.accounted.claimed⟩
  · exact .inr wrong

end

namespace Sample

open NetworkHandler NetworkHandler.Sample

def lastTxs (id : Json) : Json := Batch.Sample.identified id "get-last-txs"

def elements : List Json := [lastTxs (.int 1), Batch.Sample.request [] "get-last-txs", lastTxs (.int 2)]

def flows (i : Nat) : Flow :=
  (getLastTxs host).perform relay
    (text "\x7b\"jsonrpc\":\"2.0\",\"id\":" ++ decimal (i / 2 + 1) ++ text ",\"method\":\"get-last-txs\"\x7d")

def inReverse : List Label :=
  timedOutOnce.map (fun l => ⟨1, 0, l, true⟩) ++ timedOutOnce.map (fun l => ⟨0, 0, l, true⟩)

theorem flows_bounded (i : Nat) : (flows i).Bounded 96 := perform_bounded rfl _

theorem elements_safe : ∀ v ∈ elements, ¬Batch.Throws NetworkHandler.Sample.relay.toService v := by
  rintro v inside ⟨-, has, none, -⟩
  simp only [elements, List.mem_cons, List.not_mem_nil, or_false] at inside
  rcases inside with rfl | rfl | rfl
  · cases none
  · cases has
  · cases none

theorem inReverse_runs :
    (runAllowed (step relay) (fun _ _ => True) (start relay flows (fun _ => false) elements) inReverse).map
      (fun s => (s.batch.result, s.batch.sent.length)) =
        some ([(2, resultReply (.int 2) (.arr [])), (0, resultReply (.int 1) (.arr []))], 1) := by decide +kernel

end Sample

theorem batch_answered_in_reverse :
    ∃ s, runAllowed (step NetworkHandler.Sample.relay) (fun _ _ => True)
        (start NetworkHandler.Sample.relay Sample.flows (fun _ => false) Sample.elements) Sample.inReverse = some s ∧
      s.batch.result = [(2, resultReply (.int 2) (.arr [])), (0, resultReply (.int 1) (.arr []))] ∧
      s.batch.sent.length = 1 := by
  obtain ⟨s, ran, outcome⟩ := Option.map_eq_some_iff.mp Sample.inReverse_runs
  obtain ⟨entries, sent⟩ := Prod.mk.inj outcome
  have answered := batch_of_requests_answered _ _ Sample.flows_bounded _ _ (by simp [Sample.elements])
    Sample.elements_safe _ s ran
  exact ⟨s, ran, entries, le_antisymm answered.2.1 sent.ge⟩

end Gather

end FullnodeClient.Rpc
