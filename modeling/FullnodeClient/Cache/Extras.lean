import FullnodeClient.Cache.Routine

/-!
# Loading extra blocks

The passes of the loop of `load_extra_blocks`: what a pass requests, what it does with the answer and
which blocks it erases.
-/

namespace FullnodeClient.Cache
open FullnodeClient.Lib FullnodeClient.Text

def requestItem (first : Bool) (hash : Bytes) : Bytes :=
  (if first then [] else text ",") ++ text "\"" ++ StringUtils.bin2hex hash ++ text "\""

/-- The request loop: the text it appends, the count, and the elements from the iterator on. `first` says
that the iterator is at the beginning. -/
def buildRequest (recvCount : Nat) : Bool → List (List Bytes) → Nat → Bytes × Nat × List (List Bytes)
  | _, [], count => ([], count, [])
  | first, extra :: rest, count =>
      let json := extra.flatMap (requestItem first)
      if recvCount ≤ count + extra.length then (json, count + extra.length, extra :: rest)
      else
        let (more, count, iter) := buildRequest recvCount false rest (count + extra.length)
        (json ++ more, count, iter)

theorem buildRequest_snd (recvCount : Nat) (first : Bool) (hashes : List (List Bytes)) (count : Nat) :
    (buildRequest recvCount first hashes count).2 = extraRequest recvCount hashes count := by
  induction hashes generalizing first count with
  | nil => rfl
  | cons extra rest ih =>
      simp only [buildRequest, extraRequest]
      split
      · rfl
      · exact ih false _

def requestItems (first : Bool) : List (List Bytes) → Bytes
  | [] => []
  | extra :: rest => extra.flatMap (requestItem first) ++ rest.flatten.flatMap (requestItem false)

theorem requestItems_cons (first : Bool) (extra : List Bytes) (rest : List (List Bytes)) :
    requestItems first (extra :: rest) = extra.flatMap (requestItem first) ++ requestItems false rest := by
  cases rest with
  | nil => rfl
  | cons next rest => simp [requestItems]

-- The loop stops at the element that brings the count to the limit, and leaves the iterator there.
theorem buildRequest_cases (recvCount : Nat) (first : Bool) (hashes : List (List Bytes)) (count : Nat) :
    (∃ before last after, hashes = before ++ last :: after ∧
      (before = [] ∨ count + before.flatten.length < recvCount) ∧
      recvCount ≤ count + (before.flatten.length + last.length) ∧
      buildRequest recvCount first hashes count =
        (requestItems first (before ++ [last]), count + (before.flatten.length + last.length), last :: after)) ∨
    (hashes = [] ∨ count + hashes.flatten.length < recvCount) ∧
      buildRequest recvCount first hashes count = (requestItems first hashes, count + hashes.flatten.length, []) := by
  induction hashes generalizing first count with
  | nil => exact .inr ⟨.inl rfl, rfl⟩
  | cons extra rest ih =>
      by_cases reached : recvCount ≤ count + extra.length
      · refine .inl ⟨[], extra, rest, rfl, .inl rfl, by simpa using reached, ?_⟩
        simp [buildRequest, reached, requestItems]
      · have below : count + extra.length < recvCount := not_le.mp reached
        rcases ih false (count + extra.length) with ⟨before, last, after, rfl, fewer, limit, built⟩ | ⟨fewer, built⟩
        · refine .inl ⟨extra :: before, last, after, rfl, .inr ?_, ?_, ?_⟩
          · rcases fewer with rfl | fewer
            · simpa using below
            · simpa [Nat.add_assoc] using fewer
          · simpa [Nat.add_assoc] using limit
          · simp [buildRequest, reached, built, requestItems_cons, Nat.add_assoc]
        · refine .inr ⟨.inr ?_, ?_⟩
          · rcases fewer with rfl | fewer
            · simpa using below
            · simpa [Nat.add_assoc] using fewer
          · simp [buildRequest, reached, built, requestItems_cons, Nat.add_assoc]

variable {env : Env} {st mid st' : State} {hashes rest : List (List Bytes)}

theorem request_cases (recvCount : Nat) (hashes : List (List Bytes)) :
    (∃ before last after, hashes = before ++ last :: after ∧
      (before = [] ∨ before.flatten.length < recvCount) ∧ recvCount ≤ before.flatten.length + last.length ∧
      (buildRequest recvCount true hashes 0).1 = requestItems true (before ++ [last]) ∧
      extraRequest recvCount hashes 0 = (before.flatten.length + last.length, last :: after)) ∨
    (hashes = [] ∨ hashes.flatten.length < recvCount) ∧
      (buildRequest recvCount true hashes 0).1 = requestItems true hashes ∧
      extraRequest recvCount hashes 0 = (hashes.flatten.length, []) := by
  rw [← buildRequest_snd recvCount true hashes 0]
  simpa only [Nat.zero_add, Prod.ext_iff] using buildRequest_cases recvCount true hashes 0

/-! ## Passes -/

inductive Walk (env : Env) : State → List Bytes → State → Prop
  | done {st : State} : (∀ buf slots rest, st.phase ≠ .extraWalk buf slots rest) → Walk env st [] st
  | frame {st mid st' : State} {buf after : Buf} {slots : Nat} {rest : List (List Bytes)} {dump : Bytes}
      {dumps : List Bytes} (faults : List Nat) : st.phase = .extraWalk buf slots rest →
      nextFrame buf (0 < slots) = some (.content (some dump) after) → act env st (.extraFrame faults) = some mid →
      Walk env mid dumps st' → Walk env st (dump :: dumps) st'
  | leave {st st' : State} {buf : Buf} {slots : Nat} {rest : List (List Bytes)} (faults : List Nat) :
      st.phase = .extraWalk buf slots rest →
      (∀ dump after, nextFrame buf (0 < slots) ≠ some (.content (some dump) after)) →
      act env st (.extraFrame faults) = some st' → Walk env st [] st'

def Pass (env : Env) (st st' : State) : Prop :=
  ∃ body mid dumps, act env st (.extraDumps body) = some mid ∧ Walk env mid dumps st'

def Ends (settings : Settings) (rest : List (List Bytes)) (phase : Phase) : Prop :=
  phase = loadExtraBlocks settings rest ∨ phase = .stopped ∨ phase = .down

theorem loadExtraBlocks_outside (settings : Settings) (hashes : List (List Bytes)) (buf : Buf) (slots : Nat)
    (rest : List (List Bytes)) : loadExtraBlocks settings hashes ≠ .extraWalk buf slots rest := by
  unfold loadExtraBlocks
  split <;> exact Phase.noConfusion

theorem loadExtraBlocks_ne_stopped (settings : Settings) (hashes : List (List Bytes)) :
    loadExtraBlocks settings hashes ≠ .stopped := by
  unfold loadExtraBlocks
  split <;> exact Phase.noConfusion

theorem Walk.eq_of_outside {dumps : List Bytes} (walked : Walk env st dumps st')
    (outside : ∀ buf slots rest, st.phase ≠ .extraWalk buf slots rest) : dumps = [] ∧ st' = st := by
  cases walked with
  | done => exact ⟨rfl, rfl⟩
  | frame faults inside => exact absurd inside (outside _ _ _)
  | leave faults inside => exact absurd inside (outside _ _ _)

theorem Walk.stays_stopped {dumps : List Bytes} (walked : Walk env st dumps st') (stopped : st.phase = .stopped) :
    st'.phase = .stopped := by
  have outside (buf : Buf) (slots : Nat) (rest : List (List Bytes)) : st.phase ≠ .extraWalk buf slots rest := by
    rw [stopped]
    exact Phase.noConfusion
  rw [(walked.eq_of_outside outside).2, stopped]

theorem act_extraFrame_phase {faults : List Nat} (acted : act env st (.extraFrame faults) = some st') :
    ∃ buf slots rest, st.phase = .extraWalk buf slots rest := by
  simp only [act] at acted
  split at acted
  case h_1 buf slots rest here => exact ⟨buf, slots, rest, here⟩
  case h_2 => cases acted

theorem act_extraFrame_cases {buf : Buf} {slots : Nat} {faults : List Nat}
    (here : st.phase = .extraWalk buf slots rest) (acted : act env st (.extraFrame faults) = some mid) :
    ((∀ dump after, nextFrame buf (0 < slots) ≠ some (.content (some dump) after)) ∧
        Ends env.settings rest mid.phase) ∨
      ∃ dump after, nextFrame buf (0 < slots) = some (.content (some dump) after) ∧
        (mid.phase = .extraWalk after (slots - 1) rest ∨ mid.phase = .stopped) := by
  simp only [act, here] at acted
  split at acted
  case h_1 found =>
    cases Option.some.inj acted
    exact .inl ⟨fun dump after same => (by cases found.symm.trans same), .inr (.inr rfl)⟩
  case h_2 content after found =>
    cases content with
    | some dump =>
        refine .inr ⟨dump, after, found, ?_⟩
        split at acted
        case h_1 => cases Option.some.inj acted; exact .inl rfl
        case h_2 => cases Option.some.inj acted; exact .inr rfl
    | none =>
        refine .inl ⟨fun dump after same => (by cases found.symm.trans same), ?_⟩
        split at acted
        case h_1 ran =>
          simp only [extraFrame, Option.bind_none] at ran
          cases congrArg Prod.fst ran
        case h_2 => cases Option.some.inj acted; exact .inr (.inl rfl)
  case h_3 fault content =>
    cases Option.some.inj acted
    exact .inl ⟨fun dump after => content (some dump) after, .inl rfl⟩

theorem Walk.ends {buf : Buf} {slots : Nat} {dumps : List Bytes} (walked : Walk env st dumps st')
    (here : st.phase = .extraWalk buf slots rest) : Ends env.settings rest st'.phase := by
  induction walked generalizing buf slots with
  | done outside => exact absurd here (outside buf slots rest)
  | frame faults inside found acted walked ih =>
      rw [here] at inside
      cases inside
      rcases act_extraFrame_cases here acted with ⟨none, -⟩ | ⟨dump, after, -, next | stopped⟩
      · exact absurd found (none _ _)
      · exact ih next
      · exact .inr (.inl (walked.stays_stopped stopped))
  | leave faults inside none acted =>
      rw [here] at inside
      cases inside
      rcases act_extraFrame_cases here acted with ⟨-, ends⟩ | ⟨dump, after, found, -⟩
      · exact ends
      · exact absurd found (none dump after)

theorem Pass.ends (passed : Pass env st st') (here : st.phase = .extras hashes) :
    Ends env.settings (extraRequest env.settings.recvCount.toNat hashes 0).2 st'.phase := by
  obtain ⟨body, mid, dumps, acted, walked⟩ := passed
  simp only [act, here] at acted
  cases body with
  | none =>
      cases Option.some.inj acted
      rw [(walked.eq_of_outside (loadExtraBlocks_outside _ _)).2]
      exact .inl rfl
  | some body =>
      cases Option.some.inj acted
      exact walked.ends rfl

theorem pass_without_answer (env : Env) (log : Log) (carried : Carried) (hashes : List (List Bytes)) :
    Pass env ⟨log, carried, .extras hashes⟩
      ⟨log, carried, loadExtraBlocks env.settings (extraRequest env.settings.recvCount.toNat hashes 0).2⟩ :=
  ⟨none, _, [], rfl, .done (loadExtraBlocks_outside _ _)⟩

theorem loadExtraBlocks_eq_extras {settings : Settings} {hashes other : List (List Bytes)}
    (loaded : loadExtraBlocks settings hashes = .extras other) :
    other = hashes ∧ hashes ≠ [] ∧ (extraRequest settings.recvCount.toNat hashes 0).1 ≠ 0 := by
  unfold loadExtraBlocks at loaded
  split at loaded
  case isTrue => cases loaded
  case isFalse sent =>
    obtain ⟨some, counted⟩ := not_or.mp sent
    exact ⟨(Phase.extras.inj loaded).symm, some, counted⟩

theorem Ends.extras {settings : Settings} {phase : Phase} {other : List (List Bytes)}
    (ends : Ends settings rest phase) (again : phase = .extras other) : other = rest ∧ rest ≠ [] := by
  rcases ends with looped | stopped | down
  · obtain ⟨same, some, -⟩ := loadExtraBlocks_eq_extras (looped.symm.trans again)
    exact ⟨same, some⟩
  · cases stopped.symm.trans again
  · cases down.symm.trans again

theorem Pass.phase (passed : Pass env st st') : ∃ hashes, st.phase = .extras hashes := by
  obtain ⟨body, mid, dumps, acted, -⟩ := passed
  simp only [act] at acted
  split at acted
  case h_1 hashes here => exact ⟨hashes, here⟩
  case h_2 => cases acted

abbrev Passes (env : Env) : State → State → Prop := Relation.ReflTransGen (Pass env)

theorem extraRequest_suffix (recvCount : Nat) (hashes : List (List Bytes)) :
    (extraRequest recvCount hashes 0).2 <:+ hashes := by
  rcases request_cases recvCount hashes with ⟨before, last, after, rfl, -, -, -, eq⟩ | ⟨-, -, eq⟩
  · rw [eq]
    exact List.suffix_append _ _
  · rw [eq]
    exact List.nil_suffix

theorem Passes.suffix {log : Log} {carried : Carried}
    (reached : Passes env ⟨log, carried, loadExtraBlocks env.settings hashes⟩ st) (here : st.phase = .extras rest) :
    rest <:+ hashes ∧ rest ≠ [] := by
  induction reached generalizing rest with
  | refl =>
      obtain ⟨rfl, some, -⟩ := loadExtraBlocks_eq_extras here
      exact ⟨List.suffix_rfl, some⟩
  | tail _ passed ih =>
      obtain ⟨earlier, before⟩ := passed.phase
      obtain ⟨rfl, some⟩ := (passed.ends before).extras here
      exact ⟨(extraRequest_suffix _ _).trans (ih before).1, some⟩

theorem extraRequest_at_head {recvCount : Nat} {extra : List Bytes} (full : recvCount ≤ extra.length)
    (rest : List (List Bytes)) : extraRequest recvCount (extra :: rest) 0 = (extra.length, extra :: rest) := by
  simp [extraRequest, full]

theorem loadExtraBlocks_sent {settings : Settings} (some : hashes ≠ [])
    (counted : (extraRequest settings.recvCount.toNat hashes 0).1 ≠ 0) :
    loadExtraBlocks settings hashes = .extras hashes :=
  if_neg (not_or.mpr ⟨some, counted⟩)

theorem passes_to_full (env : Env) (log : Log) (carried : Carried) (positive : 0 < env.settings.recvCount.toNat)
    {extra : List Bytes} (inside : extra ∈ hashes) (full : env.settings.recvCount.toNat ≤ extra.length) :
    ∃ head rest, env.settings.recvCount.toNat ≤ head.length ∧
      Passes env ⟨log, carried, loadExtraBlocks env.settings hashes⟩ ⟨log, carried, .extras (head :: rest)⟩ := by
  induction length : hashes.length using Nat.strong_induction_on generalizing hashes with
  | _ n ih =>
      rcases request_cases env.settings.recvCount.toNat hashes with
        ⟨before, last, after, split, fewer, limit, -, eq⟩ | ⟨empty | fewer, -⟩
      · have sent : loadExtraBlocks env.settings hashes = .extras hashes := by
          refine loadExtraBlocks_sent (List.ne_nil_of_mem inside) ?_
          rw [eq]
          exact Nat.pos_iff_ne_zero.mp (positive.trans_le limit)
        by_cases head : before = []
        · subst head
          refine ⟨last, after, by simpa using limit, ?_⟩
          rw [sent, split]
          exact .refl
        · have below := fewer.resolve_left head
          have kept : extra ∈ last :: after := by
            rw [split] at inside
            refine (List.mem_append.mp inside).resolve_left fun early => ?_
            have := (List.sublist_flatten_of_mem early).length_le
            omega
          have shorter : (last :: after).length < n := by
            have some := List.length_pos_iff.mpr head
            rw [← length, split, List.length_append]
            omega
          obtain ⟨head, rest, reached, passes⟩ := ih _ shorter kept rfl
          refine ⟨head, rest, reached, .head ?_ passes⟩
          have passed := pass_without_answer env log carried hashes
          rwa [eq, ← sent] at passed
      · simp [empty] at inside
      · have := (List.sublist_flatten_of_mem inside).length_le
        omega

theorem loadExtraBlocks_full_head {settings : Settings} {head : List Bytes} (some : 0 < head.length)
    (full : settings.recvCount.toNat ≤ head.length) (rest : List (List Bytes)) :
    loadExtraBlocks settings (head :: rest) = .extras (head :: rest) := by
  refine loadExtraBlocks_sent (List.cons_ne_nil _ _) ?_
  rw [extraRequest_at_head full]
  exact Nat.pos_iff_ne_zero.mp some

def Steady (recvCount : Nat) (hashes : List (List Bytes)) : Prop :=
  (recvCount = 0 ∧ ∀ extra ∈ hashes.head?, extra = []) ∨ (0 < recvCount ∧ ∀ extra ∈ hashes, extra.length < recvCount)

theorem idle_of_empty_head {log : Log} {carried : Carried} (zero : env.settings.recvCount.toNat = 0)
    (first : ∀ extra ∈ hashes.head?, extra = [])
    (reached : Passes env ⟨log, carried, loadExtraBlocks env.settings hashes⟩ st) : st.phase ≠ .extras rest := by
  have idle : loadExtraBlocks env.settings hashes = .idle := by
    refine if_pos ?_
    cases hashes with
    | nil => exact .inl rfl
    | cons extra rest =>
        refine .inr ?_
        rw [extraRequest_at_head (zero ▸ Nat.zero_le _), first extra rfl, List.length_nil]
  rw [idle] at reached
  rcases Relation.ReflTransGen.cases_head reached with rfl | ⟨mid, passed, -⟩
  · exact Phase.noConfusion
  · obtain ⟨hashes, here⟩ := passed.phase
    cases here

theorem passes_shorten_iff (env : Env) (hashes : List (List Bytes)) :
    (∀ log carried st st' before after,
      Passes env ⟨log, carried, loadExtraBlocks env.settings hashes⟩ st → Pass env st st' →
      st.phase = .extras before → st'.phase = .extras after → after.length < before.length) ↔
    Steady env.settings.recvCount.toNat hashes := by
  constructor
  · intro shorten
    -- The pass that finds a full element at the beginning finds it again in the next turn.
    have stuck (head : List Bytes) (rest : List (List Bytes)) (some : 0 < head.length)
        (full : env.settings.recvCount.toNat ≤ head.length)
        (reached : Passes env ⟨[], .initial, loadExtraBlocks env.settings hashes⟩
          ⟨[], .initial, .extras (head :: rest)⟩) : False := by
      have again := pass_without_answer env [] .initial (head :: rest)
      rw [extraRequest_at_head full, loadExtraBlocks_full_head some full] at again
      exact lt_irrefl _ (shorten _ _ _ _ _ _ reached again rfl rfl)
    rcases Nat.eq_zero_or_pos env.settings.recvCount.toNat with zero | positive
    · refine .inl ⟨zero, fun extra first => ?_⟩
      by_contra some
      obtain ⟨rest, rfl⟩ : ∃ rest, hashes = extra :: rest := List.head?_eq_some_iff.mp first
      have full : env.settings.recvCount.toNat ≤ extra.length := zero ▸ Nat.zero_le _
      have positive := List.length_pos_iff.mpr some
      refine stuck extra rest positive full ?_
      rw [loadExtraBlocks_full_head positive full]
    · refine .inr ⟨positive, fun extra inside => ?_⟩
      by_contra full
      obtain ⟨head, rest, limit, reached⟩ := passes_to_full env [] .initial positive inside (not_lt.mp full)
      exact stuck head rest (positive.trans_le limit) limit reached
  · intro steady log carried st st' before after reached passed here again
    obtain ⟨inside, some⟩ := Passes.suffix reached here
    obtain ⟨rfl, -⟩ := (passed.ends here).extras again
    rcases request_cases env.settings.recvCount.toNat before with
      ⟨earlier, last, rest, rfl, -, limit, -, eq⟩ | ⟨-, -, eq⟩
    · rw [eq]
      have progress : earlier ≠ [] := by
        rintro rfl
        rcases steady with ⟨zero, first⟩ | ⟨-, small⟩
        · exact idle_of_empty_head zero first reached here
        · have := small last (inside.subset List.mem_cons_self)
          simp only [List.flatten_nil, List.length_nil] at limit
          omega
      have := List.length_pos_iff.mpr progress
      simp only [List.length_append]
      omega
    · rw [eq]
      exact List.length_pos_iff.mpr some

theorem pass_keeps_full_block :
    let env : Env := ⟨⟨fun _ => none, id⟩, ⟨[], true, 1, 2, 5⟩⟩
    let hashes : List (List Bytes) := [[List.replicate 32 1, List.replicate 32 2]]
    loadExtraBlocks env.settings hashes = .extras hashes ∧
      Pass env ⟨[], .initial, .extras hashes⟩ ⟨[], .initial, .extras hashes⟩ :=
  ⟨rfl, pass_without_answer _ [] .initial _⟩

structure Body.Carries (body : Body) (dumps : List Bytes) : Prop where
  bytes : body.bytes = dumps.flatMap frameOf
  frames : ∀ dump ∈ dumps, dump ≠ [] ∧ dump.length < 2 ^ 64

def Buf.carrying (dumps : List Bytes) (beyond : Bytes) : Buf :=
  ⟨dumps.flatMap frameOf ++ beyond, (dumps.flatMap frameOf).length⟩

theorem Body.Carries.buf {body : Body} {dumps : List Bytes} (carries : body.Carries dumps) :
    Buf.of body = .carrying dumps body.beyond := by
  rw [Buf.of, Buf.carrying, carries.bytes]

theorem nextFrame_nil (beyond : Bytes) (more : Bool) : nextFrame (.carrying [] beyond) more = none := by
  simp [nextFrame, Buf.carrying]

theorem nextFrame_cons {dump : Bytes} (frame : dump ≠ [] ∧ dump.length < 2 ^ 64) (dumps : List Bytes)
    (beyond : Bytes) :
    nextFrame (.carrying (dump :: dumps) beyond) true = some (.content dump (.carrying dumps beyond)) := by
  have size : (frameOf dump).length = 8 + dump.length := by simp [frameOf]
  have some : 0 < ((dump :: dumps).flatMap frameOf).length := by
    rw [List.flatMap_cons, List.length_append]
    omega
  rw [nextFrame, if_pos ⟨some, rfl⟩, Buf.carrying, List.flatMap_cons, List.append_assoc,
    Buf.frame_frameOf frame.2 frame.1, List.length_append, size, Nat.add_sub_cancel_left]
  rfl

variable {dumps handled : List Bytes} {beyond : Bytes}

theorem Walk.handles_all {slots : Nat} (frames : ∀ dump ∈ dumps, dump ≠ [] ∧ dump.length < 2 ^ 64)
    (room : dumps.length ≤ slots) (here : st.phase = .extraWalk (.carrying dumps beyond) slots rest)
    (walked : Walk env st handled st') (finished : st'.phase ≠ .stopped) : handled = dumps := by
  induction dumps generalizing st handled slots with
  | nil =>
      cases walked with
      | done => rfl
      | frame faults inside found =>
          rw [here] at inside
          cases inside
          rw [nextFrame_nil] at found
          cases found
      | leave => rfl
  | cons dump dumps ih =>
      obtain ⟨frame, others⟩ := List.forall_mem_cons.mp frames
      have positive : 0 < slots := Nat.lt_of_lt_of_le (Nat.succ_pos _) room
      have next := nextFrame_cons frame dumps beyond
      rw [show true = decide (0 < slots) by simp [positive]] at next
      cases walked with
      | done outside => exact absurd here (outside _ _ _)
      | leave faults inside none =>
          rw [here] at inside
          cases inside
          exact absurd next (none _ _)
      | frame faults inside found acted walked =>
          rw [here] at inside
          cases inside
          rw [next] at found
          cases found
          rcases act_extraFrame_cases here acted with ⟨none, -⟩ | ⟨dump, after, found, phase | stopped⟩
          · exact absurd next (none _ _)
          · rw [next] at found
            cases found
            rw [ih others (Nat.le_pred_of_lt room) phase walked]
          · exact absurd (walked.stays_stopped stopped) finished

theorem walk_leaves (env : Env) (log : Log) (carried : Carried) {buf : Buf} {slots : Nat}
    (none : nextFrame buf (0 < slots) = none) :
    Walk env ⟨log, carried, .extraWalk buf slots rest⟩ [] ⟨log, carried, loadExtraBlocks env.settings rest⟩ := by
  have acted : act env ⟨log, carried, .extraWalk buf slots rest⟩ (.extraFrame []) =
      some ⟨log, carried, loadExtraBlocks env.settings rest⟩ := by
    simp only [act, none]
  exact .leave [] rfl (fun dump after found => by cases none.symm.trans found) acted

theorem walk_takes (parses : ∀ dump, env.lib.parseBlockDump dump = some .other) (slots : Nat)
    (frames : ∀ dump ∈ dumps, dump ≠ [] ∧ dump.length < 2 ^ 64) (log : Log) (carried : Carried) :
    Walk env ⟨log, carried, .extraWalk (.carrying dumps beyond) slots rest⟩ (dumps.take slots)
      ⟨log, carried, loadExtraBlocks env.settings rest⟩ := by
  induction dumps generalizing slots with
  | nil =>
      rw [List.take_nil]
      exact walk_leaves env log carried (nextFrame_nil _ _)
  | cons dump dumps ih =>
      obtain ⟨frame, others⟩ := List.forall_mem_cons.mp frames
      cases slots with
      | zero => exact walk_leaves env log carried rfl
      | succ slots =>
          have next := nextFrame_cons frame dumps beyond
          rw [show true = decide (0 < slots + 1) by simp] at next
          have acted : act env ⟨log, carried, .extraWalk (.carrying (dump :: dumps) beyond) (slots + 1) rest⟩
              (.extraFrame []) = some ⟨log, carried, .extraWalk (.carrying dumps beyond) slots rest⟩ := by
            simp only [act, next, extraFrame, Option.bind_some, parses]
            rfl
          exact .frame [] rfl next acted (ih slots others)

def Fits (recvCount : Nat) (hashes : List (List Bytes)) : Prop :=
  ∀ before last after, hashes = before ++ last :: after → (before = [] ∨ before.flatten.length < recvCount) →
    before.flatten.length + last.length ≤ hashes.length

theorem flatten_length_le_of_prefix {shorter longer : List (List Bytes)} (inside : shorter <+: longer) :
    shorter.flatten.length ≤ longer.flatten.length := by
  obtain ⟨more, rfl⟩ := inside
  simp

-- The loop stops at the first block that brings the count to the limit, so it comes to no block behind.
theorem requested_le (recvCount : Nat) {before after : List (List Bytes)} {last : List Bytes}
    (split : hashes = before ++ last :: after) (fewer : before = [] ∨ before.flatten.length < recvCount) :
    before.flatten.length + last.length ≤ (extraRequest recvCount hashes 0).1 := by
  have came : before ++ [last] <+: hashes := ⟨after, by simp [split]⟩
  have counted : (before ++ [last]).flatten.length = before.flatten.length + last.length := by simp
  rw [← counted]
  rcases request_cases recvCount hashes with ⟨before', last', after', split', -, limit, -, eq⟩ | ⟨-, -, eq⟩
  · have stop : before' ++ [last'] <+: hashes := ⟨after', by simp [split']⟩
    have total : (before' ++ [last']).flatten.length = before'.flatten.length + last'.length := by simp
    rw [eq, ← total]
    rcases List.prefix_or_prefix_of_prefix came stop with inside | inside
    · exact flatten_length_le_of_prefix inside
    · rcases List.prefix_concat_iff.mp inside with same | inside
      · rw [same]
      · have beyond := flatten_length_le_of_prefix inside
        rcases fewer with rfl | fewer
        · simp at inside
        · omega
  · rw [eq]
    exact flatten_length_le_of_prefix came

theorem head_le_requested (recvCount : Nat) (extra : List Bytes) (rest : List (List Bytes)) :
    extra.length ≤ (extraRequest recvCount (extra :: rest) 0).1 := by
  simpa using requested_le recvCount (rfl : extra :: rest = [] ++ extra :: rest) (.inl rfl)

theorem fits_iff (recvCount : Nat) (hashes : List (List Bytes)) :
    Fits recvCount hashes ↔ (extraRequest recvCount hashes 0).1 ≤ hashes.length := by
  constructor
  · intro fits
    rcases request_cases recvCount hashes with ⟨before, last, after, split, fewer, -, -, eq⟩ | ⟨fewer, -, eq⟩
    · rw [eq]
      exact fits before last after split fewer
    · rw [eq]
      rcases List.eq_nil_or_concat' hashes with rfl | ⟨before, last, rfl⟩
      · exact Nat.le_refl 0
      · have below := fewer.resolve_left (by simp)
        simp only [List.flatten_append, List.flatten_singleton, List.length_append] at below ⊢
        simpa using fits before last [] rfl (.inr (by omega))
  · intro room before last after split fewer
    exact (requested_le recvCount split fewer).trans room

theorem frames_handled_iff (settings : Settings) (hashes : List (List Bytes)) :
    (∀ lib log carried (body : Body) dumps handled mid st',
      body.Carries dumps → dumps.length = (extraRequest settings.recvCount.toNat hashes 0).1 →
      act ⟨lib, settings⟩ ⟨log, carried, .extras hashes⟩ (.extraDumps (some body)) = some mid →
      Walk ⟨lib, settings⟩ mid handled st' → st'.phase ≠ .stopped → handled = dumps) ↔
    Fits settings.recvCount.toNat hashes := by
  rw [fits_iff]
  constructor
  · intro handles
    let dumps : List Bytes := List.replicate (extraRequest settings.recvCount.toNat hashes 0).1 [1]
    have length : dumps.length = (extraRequest settings.recvCount.toNat hashes 0).1 := List.length_replicate
    have frames (dump : Bytes) (inside : dump ∈ dumps) : dump ≠ [] ∧ dump.length < 2 ^ 64 := by
      rw [List.eq_of_mem_replicate inside]
      decide
    let env : Env := ⟨⟨fun _ => some .other, id⟩, settings⟩
    let rest := (extraRequest settings.recvCount.toNat hashes 0).2
    have walked : Walk env ⟨[], .initial, .extraWalk (.carrying dumps []) hashes.length rest⟩
        (dumps.take hashes.length) ⟨[], .initial, loadExtraBlocks settings rest⟩ :=
      walk_takes (fun _ => rfl) hashes.length frames [] .initial
    have all := handles env.lib [] .initial ⟨dumps.flatMap frameOf, []⟩ dumps _ _ _ ⟨rfl, frames⟩ length rfl walked
      (loadExtraBlocks_ne_stopped _ _)
    rw [← length]
    exact (List.take_eq_self_iff dumps).mp all
  · intro room lib log carried body dumps handled mid st' carries count acted walked finished
    rw [← count] at room
    cases Option.some.inj acted
    exact walked.handles_all carries.frames room (congrArg (Phase.extraWalk · _ _) carries.buf) finished

theorem second_extra_dropped :
    let env : Env := ⟨⟨Sample.parse [.signBlock ⟨Sample.hashOf 1, []⟩, .signBlock ⟨Sample.hashOf 2, []⟩], id⟩,
      ⟨[Sample.core], true, 1, 100, 5⟩⟩
    let hashes : List (List Bytes) := [[Sample.hashOf 3, Sample.hashOf 4]]
    let body : Body := ⟨[[0], [1]].flatMap frameOf, []⟩
    loadExtraBlocks env.settings hashes = .extras hashes ∧ (extraRequest 100 hashes 0).1 = 2 ∧
      body.Carries [[0], [1]] ∧
      ∃ mid st', act env ⟨[], .initial, .extras hashes⟩ (.extraDumps (some body)) = some mid ∧
        Walk env mid [[0]] st' ∧ st'.phase = .idle := by
  refine ⟨rfl, rfl, ⟨rfl, by decide⟩, _, _, rfl, .frame [] rfl rfl rfl (walk_leaves _ _ _ rfl), rfl⟩

end FullnodeClient.Cache
