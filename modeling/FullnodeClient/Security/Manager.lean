import Mathlib.Data.List.Induction
import Mathlib.Tactic

/-!
# Lockout of addresses

`security_manager` counts the failed attempts of an address and refuses it for a while after too many. The
calls come in any order; `std::time` is read once in each of them.
-/

namespace FullnodeClient.SecurityManager

structure AddrInfo where
  last : Int
  attempt : UInt32
deriving DecidableEq

def maxAttempts : UInt32 := 4

-- The product is computed in `unsigned int`.
def wait (attempt : UInt32) : Nat := ((attempt - maxAttempts) * 300).toNat

def expired (time : Int) (info : AddrInfo) : Bool := wait info.attempt < time - info.last

abbrev Info (α : Type) := α → Option AddrInfo

variable {α : Type} [DecidableEq α]

def check (info : Info α) (addr : α) (time : Int) : Bool × Info α :=
  match info addr with
  | none => (true, info)
  | some entry =>
      if maxAttempts < entry.attempt then
        if time = -1 then (true, info)
        else if !expired time entry then (false, info)
        else (true, Function.update info addr (some { entry with last := time }))
      else (true, info)

def markFailed (info : Info α) (addr : α) (time : Int) : Info α :=
  match info addr with
  | some entry => Function.update info addr (some { entry with attempt := entry.attempt + 1 })
  | none => Function.update info addr (some ⟨time, 1⟩)

def tryReset (info : Info α) (addr : α) : Info α :=
  match info addr with
  | some _ => Function.update info addr none
  | none => info

inductive Call (α : Type)
  | check (addr : α)
  | markFailed (addr : α)
  | tryReset (addr : α)
deriving DecidableEq

structure Timed (α : Type) where
  time : Int
  call : Call α
deriving DecidableEq

def step (info : Info α) (c : Timed α) : Info α :=
  match c.call with
  | .check addr => (check info addr c.time).2
  | .markFailed addr => markFailed info addr c.time
  | .tryReset addr => tryReset info addr

def run (calls : List (Timed α)) : Info α := calls.foldl step fun _ => none

def latestFailure (addr : α) (calls : List (Timed α)) : Option Int :=
  calls.foldl (fun latest c => if c.call = .markFailed addr then some c.time else latest) none

@[simp] theorem run_snoc (calls : List (Timed α)) (c : Timed α) : run (calls ++ [c]) = step (run calls) c := by
  simp [run]

@[simp] theorem latestFailure_snoc (addr : α) (calls : List (Timed α)) (c : Timed α) :
    latestFailure addr (calls ++ [c]) =
      if c.call = .markFailed addr then some c.time else latestFailure addr calls := by
  simp [latestFailure]

theorem latestFailure_mem {addr : α} {calls : List (Timed α)} {latest : Int}
    (failed : latestFailure addr calls = some latest) : ∃ c ∈ calls, c.time = latest := by
  induction calls using List.reverseRecOn with
  | nil => cases failed
  | append_singleton calls c ih =>
      rw [latestFailure_snoc] at failed
      split_ifs at failed with here
      · exact ⟨c, by simp, Option.some.inj failed⟩
      · obtain ⟨c, member, same⟩ := ih failed
        exact ⟨c, List.mem_append_left _ member, same⟩

variable {info : Info α} {addr other : α} {entry : AddrInfo} {time : Int}

theorem check_granted (recorded : info addr = some entry) (exceeds : maxAttempts < entry.attempt) (time : Int) :
    (check info addr time).1 = true ↔ time = -1 ∨ wait entry.attempt < time - entry.last := by
  simp only [check, recorded, exceeds, if_true]
  by_cases failed : time = -1
  · simp [failed]
  · by_cases passed : wait entry.attempt < time - entry.last <;> simp [failed, expired, passed]

theorem check_entry (recorded : (check info addr time).2 other = some entry) :
    ∃ before, info other = some before ∧ entry.attempt = before.attempt ∧ before.last ≤ entry.last := by
  have same (eq : info other = some entry) :
      ∃ before, info other = some before ∧ entry.attempt = before.attempt ∧ before.last ≤ entry.last :=
    ⟨entry, eq, rfl, le_rfl⟩
  unfold check at recorded
  split at recorded
  case h_1 => exact same recorded
  case h_2 before found =>
    split_ifs at recorded with exceeds failed waiting
    · exact same recorded
    · exact same recorded
    · by_cases here : other = addr
      · subst here
        simp only [Function.update_self] at recorded
        cases recorded
        have expires : wait before.attempt < time - before.last := by
          simpa only [expired, Bool.not_eq_true', decide_eq_false_iff_not, not_not] using waiting
        refine ⟨before, found, rfl, ?_⟩
        change before.last ≤ time
        omega
      · simp only [Function.update_of_ne here] at recorded
        exact same recorded
    · exact same recorded

theorem markFailed_entry (recorded : markFailed info addr time addr = some entry) :
    (info addr = none ∧ entry = ⟨time, 1⟩) ∨
      ∃ before, info addr = some before ∧ entry = { before with attempt := before.attempt + 1 } := by
  cases found : info addr with
  | none =>
      simp only [markFailed, found, Function.update_self] at recorded
      exact .inl ⟨rfl, (Option.some.inj recorded).symm⟩
  | some before =>
      simp only [markFailed, found, Function.update_self] at recorded
      exact .inr ⟨before, rfl, (Option.some.inj recorded).symm⟩

theorem markFailed_other (elsewhere : other ≠ addr) : markFailed info addr time other = info other := by
  cases found : info addr <;> simp only [markFailed, found, Function.update_of_ne elsewhere]

theorem tryReset_entry (recorded : tryReset info addr other = some entry) : info other = some entry := by
  cases found : info addr with
  | none => simpa only [tryReset, found] using recorded
  | some before =>
      simp only [tryReset, found] at recorded
      by_cases here : other = addr
      · rw [here, Function.update_self] at recorded
        cases recorded
      · rwa [Function.update_of_ne here] at recorded

/-! ## Lockout -/

def penalty (attempt : UInt32) : Int := (attempt.toNat - 4) * 300

/-- The stamp of the record refuses the address for as long as its latest failure would, also at the value
of a clock that fails. -/
def Covers (entry : AddrInfo) (latest : Int) : Prop :=
  latest + penalty entry.attempt ≤ entry.last + wait entry.attempt ∧
    (latest ≤ -1 → latest + penalty entry.attempt < -1)

def Prompt (recorded : Option AddrInfo) (time : Int) : Prop :=
  ∀ entry ∈ recorded, maxAttempts < entry.attempt + 1 → Covers { entry with attempt := entry.attempt + 1 } time

instance (entry : AddrInfo) (latest : Int) : Decidable (Covers entry latest) := inferInstanceAs (Decidable (_ ∧ _))

instance (recorded : Option AddrInfo) (time : Int) : Decidable (Prompt recorded time) :=
  inferInstanceAs (Decidable (∀ entry ∈ recorded, _))

theorem Covers.of_later {entry' : AddrInfo} {latest : Int} (covers : Covers entry latest)
    (same : entry'.attempt = entry.attempt) (later : entry.last ≤ entry'.last) : Covers entry' latest := by
  obtain ⟨long, failing⟩ := covers
  refine ⟨?_, ?_⟩
  · rw [same]
    omega
  · rwa [same]

theorem penalty_nonneg {attempt : UInt32} (exceeds : maxAttempts < attempt) : 0 ≤ penalty attempt := by
  have : 4 < attempt.toNat := UInt32.lt_iff_toNat_lt.mp exceeds
  unfold penalty
  omega

-- The induction is on the calls from the end: the latest one is the one that can move the record.
theorem covered_of_prompt (calls : List (Timed α))
    (prompt : ∀ before time after,
      calls = before ++ ⟨time, .markFailed addr⟩ :: after → Prompt (run before addr) time)
    (recorded : run calls addr = some entry) :
    ∃ latest, latestFailure addr calls = some latest ∧ (maxAttempts < entry.attempt → Covers entry latest) := by
  induction calls using List.reverseRecOn generalizing entry with
  | nil => cases recorded
  | append_singleton calls c ih =>
      have earlier {entry : AddrInfo} (recorded : run calls addr = some entry) :
          ∃ latest, latestFailure addr calls = some latest ∧ (maxAttempts < entry.attempt → Covers entry latest) :=
        ih (fun before time after split => prompt before time (after ++ [c]) (by simp [split])) recorded
      obtain ⟨time, call⟩ := c
      rw [run_snoc] at recorded
      rw [latestFailure_snoc]
      cases call with
      | check other =>
          obtain ⟨before, found, same, later⟩ := check_entry recorded
          obtain ⟨latest, eq, covers⟩ := earlier found
          refine ⟨latest, by simpa using eq, fun exceeds => ?_⟩
          exact (covers (same ▸ exceeds)).of_later same later
      | tryReset other =>
          obtain ⟨latest, eq, covers⟩ := earlier (tryReset_entry recorded)
          exact ⟨latest, by simpa using eq, covers⟩
      | markFailed other =>
          by_cases here : addr = other
          · subst here
            refine ⟨time, by simp, fun exceeds => ?_⟩
            rcases markFailed_entry recorded with ⟨-, rfl⟩ | ⟨before, found, rfl⟩
            · exact absurd exceeds (show ¬maxAttempts < (1 : UInt32) by decide)
            · exact prompt calls time [] rfl before found exceeds
          · have kept : run calls addr = some entry := (markFailed_other here).symm.trans recorded
            obtain ⟨latest, eq, covers⟩ := earlier kept
            exact ⟨latest, by simpa [Ne.symm here] using eq, covers⟩

theorem lockout_iff (addr : α) (calls : List (Timed α)) (ordered : calls.Pairwise (·.time ≤ ·.time)) :
    (∀ before after time entry, calls = before ++ after → (∀ c ∈ before, c.time ≤ time) →
      run before addr = some entry → maxAttempts < entry.attempt → (check (run before) addr time).1 = true →
      ∃ latest, latestFailure addr before = some latest ∧ (entry.attempt.toNat - 4) * 300 < time - latest) ↔
    ∀ before time after, calls = before ++ ⟨time, .markFailed addr⟩ :: after → Prompt (run before addr) time := by
  constructor
  · intro locked before time after split entry found exceeds
    have recorded : run (before ++ [⟨time, .markFailed addr⟩]) addr =
        some { entry with attempt := entry.attempt + 1 } := by
      rw [Option.mem_def] at found
      simp only [run_snoc, step, markFailed, found, Function.update_self]
    have past : ∀ c ∈ before ++ [⟨time, .markFailed addr⟩], c.time ≤ time := by
      rw [split, List.pairwise_append] at ordered
      intro c member
      rcases List.mem_append.mp member with early | last
      · exact ordered.2.2 c early _ List.mem_cons_self
      · rw [List.mem_singleton.mp last]
    have waits (now : Int) (later : time ≤ now)
        (granted : now = -1 ∨ wait (entry.attempt + 1) < now - entry.last) :
        penalty (entry.attempt + 1) < now - time := by
      obtain ⟨latest, eq, elapsed⟩ := locked _ after now _ (by simp [split])
        (fun c member => (past c member).trans later)
        recorded exceeds ((check_granted recorded exceeds now).mpr granted)
      rw [latestFailure_snoc, if_pos rfl] at eq
      cases eq
      exact elapsed
    have positive := penalty_nonneg exceeds
    refine ⟨?_, fun failing => ?_⟩
    · by_contra short
      have early := waits (time + penalty (entry.attempt + 1)) (by omega) (.inr (by simp only at short; omega))
      omega
    · have early := waits (-1) failing (.inl rfl)
      simp only
      omega
  · intro prompt before after time entry split past recorded exceeds granted
    obtain ⟨latest, eq, covers⟩ := covered_of_prompt before
      (fun earlier time rest inside => prompt earlier time (rest ++ after) (by simp [split, inside])) recorded
    obtain ⟨failure, member, rfl⟩ := latestFailure_mem eq
    have before_now := past failure member
    refine ⟨failure.time, eq, ?_⟩
    obtain ⟨long, failing⟩ := covers exceeds
    change penalty entry.attempt < time - failure.time
    rcases (check_granted recorded exceeds time).mp granted with rfl | passed
    · have := failing before_now
      omega
    · omega

theorem lockout_after_burst :
    let calls : List (Timed Nat) := List.replicate 5 ⟨1000, .markFailed 7⟩
    (check (run calls) 7 1301).1 = true ∧ ∃ latest, latestFailure 7 calls = some latest ∧ 300 < 1301 - latest := by
  intro calls
  have prompt : ∀ before time after,
      calls = before ++ ⟨time, .markFailed 7⟩ :: after → Prompt (run before 7) time := by
    intro before time after split
    obtain ⟨length, early, rest⟩ := List.append_eq_replicate_iff.mp split.symm
    obtain ⟨failure, -⟩ := List.cons_eq_cons.mp rest
    have short : before.length < 5 := by
      rw [List.length_cons] at length
      omega
    have all : ∀ k < 5, Prompt (run (List.replicate k (⟨1000, .markFailed 7⟩ : Timed Nat)) 7) 1000 := by decide
    rw [early, (Timed.mk.inj failure).1]
    exact all before.length short
  have granted : (check (run calls) 7 1301).1 = true := by decide
  exact ⟨granted, (lockout_iff 7 calls (by decide)).mpr prompt calls [] 1301
    ⟨1000, 5⟩ (by simp) (by decide) (by decide) (by decide) granted⟩

-- The stamp is that of the first failure: the fifth one comes five minutes later, and the address is let
-- in after one more second.
theorem stamp_of_first_failure :
    let calls : List (Timed Nat) := List.replicate 4 ⟨1000, .markFailed 7⟩ ++ [⟨1300, .markFailed 7⟩]
    (run calls 7).map (·.attempt) = some 5 ∧ latestFailure 7 calls = some 1300 ∧
      (check (run calls) 7 1301).1 = true := by
  decide

end FullnodeClient.SecurityManager
