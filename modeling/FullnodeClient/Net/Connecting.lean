import FullnodeClient.Net.Request

/-!
# Connecting

A request between the end of `on_resolve` and the end of its handshake.
-/

namespace FullnodeClient.Net
open FullnodeClient.Lib FullnodeClient.Text

def Outcome.isSuccess : Outcome → Bool
  | .succeeded _ => true
  | .failed _ _ => false

def Op.opens : Op → Bool
  | .connect | .handshake => true
  | _ => false

def Thread.isConnecting : Thread → Bool
  | .passed _ .resolve _ | .starting _ .connect | .entered _ .connect _ | .checking _ .connect _ | .passed _ .connect _
  | .starting _ .handshake => true
  | _ => false

def State.isConnecting (s : State) : Bool := s.thread.isConnecting || s.ops.any (·.2.opens)

def Thread.isBroken : Thread → Bool
  | .entered _ op outcome | .checking _ op outcome => op.opens && !outcome.isSuccess
  | .failing _ .connect _ _ | .closing _ .connect _ _ => true
  | _ => false

structure State.Unbroken (s : State) : Prop where
  calm : s.isConnecting = true → s.canceled = false ∧ s.rerun = false
  clean : s.thread.isBroken = false

variable {client : Client} {s t : State}

theorem State.isConnecting_eq (quiet : s.ops = []) : s.isConnecting = s.thread.isConnecting := by
  simp [State.isConnecting, quiet]

theorem State.callBack_quiet (client : Client) (call : Nat) (quiet : s.ops = []) :
    (s.callBack client call).isConnecting = false ∧ (s.callBack client call).thread.isBroken = false := by
  unfold State.callBack
  split <;> simp [State.isConnecting, State.stopContext, quiet, Thread.isConnecting, Thread.isBroken]

theorem State.Unbroken.of_apart (apart : t.isConnecting = false) (clean : t.thread.isBroken = false) : t.Unbroken where
  calm connecting := by
    rw [apart] at connecting
    cases connecting
  clean := clean

theorem Thread.failing_clean {call : Nat} {op : Op} {outcome : Outcome}
    (apart : (Thread.checking call op outcome).isConnecting = false) (code : Nat) (message : Bytes) :
    (Thread.failing call op code message).isBroken = false := by
  cases op with
  | connect => cases apart
  | _ => rfl

theorem State.Unbroken.errorHandler {call : Nat} {op : Op} {outcome : Outcome} (unbroken : s.Unbroken)
    (quiet : s.ops = []) (here : s.thread = .checking call op outcome) :
    (s.errorHandler call op outcome).Unbroken ∧
      (s.isConnecting = true → (s.errorHandler call op outcome).isConnecting = true) := by
  have calm := unbroken.calm
  have clean := unbroken.clean
  rw [State.isConnecting_eq quiet, here] at calm ⊢
  rw [here] at clean
  cases connecting : (Thread.checking call op outcome).isConnecting with
  | true =>
      obtain ⟨canceled, rerun⟩ := calm connecting
      cases op with
      | connect =>
          cases outcome with
          | failed code message => cases clean
          | succeeded response =>
              have passed : s.errorHandler call .connect (.succeeded response) =
                  { s with thread := .passed call .connect response } := by
                simp [State.errorHandler, rerun, canceled]
              rw [passed]
              exact ⟨⟨fun _ => ⟨canceled, rerun⟩, rfl⟩, fun _ => rfl⟩
      | _ => cases connecting
  | false =>
      refine ⟨?_, fun connecting => absurd connecting Bool.false_ne_true⟩
      unfold State.errorHandler
      split
      · split <;> exact .of_apart (isConnecting_eq quiet) (Thread.failing_clean connecting _ _)
      case isFalse rerun =>
        split
        · exact .of_apart (isConnecting_eq quiet) rfl
        case isFalse canceled =>
          split
          · exact .of_apart (isConnecting_eq quiet) (Thread.failing_clean connecting _ _)
          · exact ⟨fun _ => ⟨Bool.eq_false_iff.mpr canceled, Bool.eq_false_iff.mpr rerun⟩, rfl⟩

theorem State.isConnecting_congr (quiet : s.ops = []) (quiet' : t.ops = [])
    (same : t.thread.isConnecting = s.thread.isConnecting) : t.isConnecting = s.isConnecting := by
  rw [State.isConnecting_eq quiet, State.isConnecting_eq quiet', same]

theorem State.Unbroken.move (unbroken : s.Unbroken) (canceled : t.canceled = s.canceled) (rerun : t.rerun = s.rerun)
    (same : t.isConnecting = s.isConnecting) (clean : t.thread.isBroken = false) :
    t.Unbroken ∧ (s.isConnecting = true → t.isConnecting = true) := by
  refine ⟨⟨fun connecting => ?_, clean⟩, fun connecting => same.trans connecting⟩
  rw [canceled, rerun]
  exact unbroken.calm (same.symm.trans connecting)

theorem State.Unbroken.advance {pooled : Bool} (ssl : client.useSsl = true) (unbroken : s.Unbroken)
    (quiet : s.ops = []) (advanced : s.advance client pooled = some t) :
    t.Unbroken ∧ (s.isConnecting = true → t.isConnecting = true) := by
  have clean := unbroken.clean
  have connecting := State.isConnecting_eq quiet
  unfold State.advance at advanced
  cases here : s.thread with
  | idle => simp [here] at advanced
  | entered call op outcome =>
      simp only [here, Option.some.injEq] at advanced connecting clean
      subst advanced
      refine unbroken.move rfl rfl (State.isConnecting_congr quiet quiet ?_) clean
      rw [here]
      cases op <;> rfl
  | checking call op outcome =>
      simp only [here, Option.some.injEq] at advanced
      subst advanced
      exact unbroken.errorHandler quiet here
  | failing call op code message =>
      simp only [here, Option.some.injEq] at advanced connecting clean
      subst advanced
      refine unbroken.move rfl rfl (State.isConnecting_congr quiet quiet (by rw [here]; rfl)) ?_
      cases op with
      | connect => cases clean
      | _ => rfl
  | closing call op code message =>
      simp only [here] at advanced connecting
      rw [connecting]
      refine ⟨?_, fun connecting => absurd connecting Bool.false_ne_true⟩
      split at advanced <;> cases Option.some.inj advanced
      · cases pooled <;> exact .of_apart (State.isConnecting_eq quiet) rfl
      · obtain ⟨apart, clean⟩ := State.callBack_quiet (s := { s with
          connection := .closed, result := failed client op code message s.result }) client call quiet
        exact .of_apart apart clean
  | passed call op response =>
      simp only [here] at advanced connecting
      cases op with
      | read =>
          rw [connecting]
          cases Option.some.inj advanced
          obtain ⟨apart, clean⟩ := State.callBack_quiet (s := { s with
            connection := .closed, result := received client response s.result }) client call quiet
          exact ⟨.of_apart apart clean, fun connecting => absurd connecting Bool.false_ne_true⟩
      | resolve | connect | handshake | write =>
          cases Option.some.inj advanced
          refine unbroken.move rfl rfl (State.isConnecting_congr quiet quiet ?_) rfl
          simp only [here, ssl, if_true]
          rfl
  | starting call op =>
      simp only [here, Option.some.injEq] at advanced connecting
      subst advanced
      refine unbroken.move rfl rfl ?_ rfl
      rw [connecting]
      cases op <;> simp [State.isConnecting, quiet, Thread.isConnecting, Op.opens]
  | calling call =>
      simp only [here, Option.some.injEq] at advanced connecting
      subst advanced
      refine unbroken.move rfl rfl (State.isConnecting_congr quiet quiet ?_) rfl
      rw [here]
      rfl

end FullnodeClient.Net
