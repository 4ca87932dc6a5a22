import FullnodeClient.Net.Termination

/-!
# What a callback gets

The result that a request hands to its callback is a document of the host, or it has no `result` in it: the errors
of the request itself are written into the document that `execute` has reset.
-/

namespace FullnodeClient.Net
open FullnodeClient.Lib FullnodeClient.Text FullnodeClient.Rpc

def Blank (doc : Json) : Prop := doc.isObject = true ∧ doc.get (text "result") = none

namespace Blank

variable {doc value : Json}

theorem reset (doc : Json) : Blank (Writer.reset doc) := by
  refine ⟨rfl, ?_⟩
  simp [Writer.reset, Json.get, show text "jsonrpc" ≠ text "result" by decide, show text "id" ≠ text "result" by decide]

theorem withError (blank : Blank doc) (value : Json) : Blank (doc.set (text "error") value) := by
  cases doc with
  | obj members => exact ⟨rfl, (Json.get_set_of_ne (by decide)).trans blank.2⟩
  | _ => cases blank.1

theorem setError (blank : Blank doc) (code : Int) (message : Bytes) : Blank (Writer.setError code message doc) :=
  blank.withError _

theorem addErrorData (blank : Blank doc) (name : Bytes) (value : Json) : Blank (Writer.addErrorData name value doc) :=
  blank.withError _

end Blank

namespace State

def Handed (client : Client) (result : Json) : Prop := (∃ body, client.parse body = some result) ∨ Blank result

def Unread (s : State) : Prop := s.invoked = 0 → s.callback = true → Blank s.result

variable {client : Client} {s t : State}

theorem Unread.of_same (unread : s.Unread) (invoked : s.invoked ≤ t.invoked)
    (callback : t.callback = true → s.callback = true) (result : Blank s.result → Blank t.result) : t.Unread := by
  intro silent owed
  exact result (unread (by omega) (callback owed))

theorem received_handed (client : Client) (response : Response) {result : Json} (blank : Blank result) :
    Handed client (received client response result) := by
  unfold received
  cases parsed : client.parse response.body with
  | some doc => exact .inl ⟨_, parsed⟩
  | none =>
      dsimp only
      split
      · exact .inr blank
      · exact .inr (blank.setError _ _)

theorem failed_blank (client : Client) (op : Op) (code : Nat) (message : Bytes) {result : Json} (blank : Blank result) :
    Blank (failed client op code message result) :=
  ((blank.setError _ _).addErrorData _ _).addErrorData _ _

theorem Unread.callBack (call : Nat) (handed : s.invoked = 0 → s.callback = true → Handed client s.result)
    (once : (s.callBack client call).invoked ≤ 1) :
    (s.callBack client call).Unread ∧
      (s.invoked < (s.callBack client call).invoked → Handed client (s.callBack client call).result) := by
  unfold State.callBack at once ⊢
  split at once
  case isTrue owed =>
    rw [if_pos owed]
    have first : s.invoked = 0 := by
      simp only at once
      omega
    exact ⟨fun silent => absurd silent (Nat.succ_ne_zero _), fun _ => handed first owed⟩
  case isFalse free =>
    rw [if_neg free]
    exact ⟨fun _ owed => absurd owed free, fun more => absurd more (lt_irrefl _)⟩

theorem Unread.advance {pooled : Bool} (unread : s.Unread) (advanced : s.advance client pooled = some t)
    (once : t.invoked ≤ 1) : t.Unread ∧ (s.invoked < t.invoked → Handed client t.result) := by
  unfold State.advance at advanced
  cases here : s.thread with
  | idle => simp [here] at advanced
  | checking call op outcome =>
      simp only [here, Option.some.injEq, errorHandler] at advanced
      subst advanced
      refine ⟨unread.of_same ?_ ?_ ?_, fun more => absurd more ?_⟩ <;> (repeat' split) <;> simp
  | closing call op code message =>
      simp only [here] at advanced
      split at advanced <;> cases Option.some.inj advanced
      · cases pooled <;> exact ⟨fun _ _ => .reset _, fun more => absurd more (lt_irrefl _)⟩
      · refine Unread.callBack call (fun silent owed => ?_) once
        exact .inr (failed_blank client op code message (unread silent owed))
  | passed call op response =>
      simp only [here] at advanced
      cases op with
      | read =>
          cases Option.some.inj advanced
          refine Unread.callBack call (fun silent owed => ?_) once
          exact received_handed client response (unread silent owed)
      | _ =>
          cases Option.some.inj advanced
          exact ⟨unread, fun more => absurd more (lt_irrefl _)⟩
  | calling call =>
      simp only [here, Option.some.injEq] at advanced
      subst advanced
      exact ⟨fun _ owed => absurd owed Bool.false_ne_true, fun more => absurd more (lt_irrefl _)⟩
  | _ =>
      simp only [here, Option.some.injEq] at advanced
      subst advanced
      exact ⟨unread, fun more => absurd more (lt_irrefl _)⟩

theorem Unread.onTimeout (unread : s.Unread) (timeout : Timeout) (once : (s.onTimeout client timeout).invoked ≤ 1) :
    (s.onTimeout client timeout).Unread ∧
      (s.invoked < (s.onTimeout client timeout).invoked → Handed client (s.onTimeout client timeout).result) := by
  unfold State.onTimeout at once ⊢
  split at once
  case isTrue ended =>
    rw [if_pos ended]
    exact ⟨unread, fun more => absurd more (lt_irrefl _)⟩
  case isFalse going =>
    rw [if_neg going]
    dsimp only at once ⊢
    split at once
    case isTrue again =>
      rw [if_pos again]
      exact ⟨unread, fun more => absurd more (lt_irrefl _)⟩
    case isFalse last =>
      rw [if_neg last]
      simp only [performCallback, stopContext] at once ⊢
      split at once
      case isTrue owed =>
        rw [if_pos owed]
        have first : s.invoked = 0 := by
          simp only at once
          omega
        refine ⟨fun silent => absurd silent (Nat.succ_ne_zero _), fun _ => .inr ?_⟩
        exact ((unread first owed).setError _ _).addErrorData _ _
      case isFalse free =>
        rw [if_neg free]
        exact ⟨fun _ owed => absurd owed free, fun more => absurd more (lt_irrefl _)⟩

theorem Unread.throwException {message : Bytes} {response : Response} (unread : s.Unread)
    (threw : s.throwException client message response = some t) :
    t.Unread ∧ (s.invoked < t.invoked → Handed client t.result) := by
  unfold State.throwException at threw
  split at threw <;> cases threw <;>
    exact ⟨fun silent owed => (unread silent owed).setError _ _, fun more => absurd more (lt_irrefl _)⟩

theorem Unread.step {label : Label} (external : client.ownsContext = false) (unread : s.Unread)
    (stepped : s.step client label = some t) (once : t.invoked ≤ 1) :
    t.Unread ∧ (s.invoked < t.invoked → Handed client t.result) := by
  cases label with
  | resetAttempts => simp [State.step, isOutside, external] at stepped
  | execute callback pooled => simp [State.step, isOutside, external] at stepped
  | leave =>
      simp only [State.step, Option.ite_none_right_eq_some, Option.some.injEq] at stepped
      obtain ⟨-, rfl⟩ := stepped
      exact ⟨unread, fun more => absurd more (lt_irrefl _)⟩
  | complete i outcome =>
      simp only [State.step, Option.ite_none_right_eq_some, Option.map_eq_some_iff] at stepped
      obtain ⟨-, entry, -, rfl⟩ := stepped
      exact ⟨unread, fun more => absurd more (lt_irrefl _)⟩
  | advance pooled => exact unread.advance stepped once
  | expire =>
      obtain ⟨timeout, -, rfl⟩ := Option.map_eq_some_iff.mp stepped
      exact unread.onTimeout timeout once
  | throw message response => exact unread.throwException stepped

theorem Unread.start (client : Client) (pooled : Bool) : (fresh.execute client true pooled).Unread := by
  cases pooled <;> exact fun _ _ => .reset _

end State

end FullnodeClient.Net
