import FullnodeClient.Lib.Ownership
import FullnodeClient.Net.Pool

/-!
# Sockets

The handles of the connections of any number of requests that share the pool. A request has two sockets,
`m_socket` and the lowest layer of `m_ssl_socket`. The number of a handle that has been closed can be given out
again, to any part of the program. What the requests do, they may do in any order.
-/

namespace FullnodeClient.Net
open FullnodeClient.Lib FullnodeClient.Text

structure Sockets (κ : Type) where
  pool : Pool κ
  -- `m_socket`, and with `true` the lowest layer of `m_ssl_socket`.
  socket : κ × Bool → Option Int
  foreign : List Int
  opened : List Int

inductive Owner (κ : Type)
  | socket (client : κ) (ssl : Bool)
  | ready (node : Nat)
  | foreign

namespace Sockets

variable {κ : Type}

def initial : Sockets κ := ⟨.initial, fun _ => none, [], []⟩

def Owns (s : Sockets κ) : Owner κ → Int → Prop
  | .socket client ssl, handle => s.socket (client, ssl) = some handle
  | .ready node, handle => ∃ it ∈ s.pool.ready, it.node = node ∧ it.socket = handle
  | .foreign, handle => handle ∈ s.foreign

variable [DecidableEq κ]

def put (client : κ) (ssl : Bool) (handle : Option Int) (s : Sockets κ) : Sockets κ :=
  { s with socket := Function.update s.socket (client, ssl) handle }

def closeSocket (client : κ) (ssl : Bool) (s : Sockets κ) : Sockets κ :=
  { s.put client ssl none with opened := s.opened.filter fun handle => s.socket (client, ssl) ≠ some handle }

def checkout (settings : PoolSettings) (client : κ) (host : Bytes) (s : Sockets κ) : Sockets κ :=
  let (pool, object) := s.pool.checkout settings host
  { s with pool := pool.hold client object }

def entry (client : κ) (s : Sockets κ) : Option EpDescr :=
  (s.pool.held client).bind fun object => s.pool.busy.find? (·.node = object)

/-- What `execute` does with a connection that the pool has. `assign` fails if the socket is open, and a
connection without a remote endpoint is not usable. -/
def execute (settings : PoolSettings) (client : κ) (host : Bytes) (ssl usable : Bool) (s : Sockets κ) : Sockets κ :=
  let s := s.checkout settings client host
  match s.entry client with
  | none => s
  | some it =>
    if it.socket = -1 then s
    else if (s.socket (client, ssl)).isNone then
      let s := s.put client ssl (some it.socket)
      if usable then s else (s.closeSocket client false).closeSocket client true
    else (s.closeSocket client false).closeSocket client true

def release (settings : PoolSettings) (client : κ) (ssl : Bool) (object : Nat) (now : Int) (s : Sockets κ) : Sockets κ :=
  let handle := (s.socket (client, ssl)).getD (-1)
  { s.put client ssl none with
    pool := ((s.pool.assign object handle).checkin settings object now).hold client none }

def close (settings : PoolSettings) (enabled : Bool) (client : κ) (ssl force : Bool) (now : Int) (s : Sockets κ) :
    Sockets κ :=
  match enabled, s.pool.held client with
  | true, some object =>
    let s := if force then s.closeSocket client false else s
    let s := s.release settings client ssl object now
    if ssl then s.closeSocket client false else s
  | _, _ => s.closeSocket client false

inductive Event (κ : Type)
  | execute (client : κ) (host : Bytes) (ssl usable : Bool)
  | connect (client : κ) (ssl : Bool) (handle : Int)
  | close (client : κ) (ssl force : Bool) (now : Int)
  | destroy (client : κ) (ssl : Bool) (now : Int)
  | sweep (now : Int)
  | cleanup
  | openForeign (handle : Int)
  | closeForeign (handle : Int)

def Event.isCleanup : Event κ → Bool
  | .cleanup => true
  | _ => false

def isFresh (s : Sockets κ) (handle : Int) : Bool := 0 ≤ handle && !s.opened.contains handle

def step (settings : PoolSettings) (enabled : Bool) (s : Sockets κ) : Event κ → Option (Sockets κ)
  | .execute client host ssl usable => some (if enabled then s.execute settings client host ssl usable else s)
  | .connect client ssl handle =>
    let s := s.closeSocket client ssl
    if s.isFresh handle then some { s.put client ssl (some handle) with opened := handle :: s.opened } else none
  | .close client ssl force now => some (s.close settings enabled client ssl force now)
  | .destroy client ssl now =>
    some (((s.close settings enabled client ssl false now).closeSocket client false).closeSocket client true)
  | .sweep now =>
    let expired := (s.pool.ready.filter fun it => it.ttl ≤ now).map EpDescr.socket
    some { s with pool := s.pool.sweep now, opened := s.opened.filter fun handle => !expired.contains handle }
  | .cleanup =>
    let closed := (s.pool.entries.map EpDescr.socket).filter (· ≠ -1)
    some { s with pool := s.pool.cleanup, opened := s.opened.filter fun handle => !closed.contains handle }
  | .openForeign handle =>
    if s.isFresh handle then some { s with foreign := handle :: s.foreign, opened := handle :: s.opened } else none
  | .closeForeign handle =>
    if handle ∈ s.foreign then
      some { s with
        foreign := s.foreign.filter fun other => other ≠ handle
        opened := s.opened.filter fun other => other ≠ handle }
    else none

/-! ## The invariant -/

structure Sound (settings : PoolSettings) (s : Sockets κ) : Prop where
  pool : s.pool.Sound settings
  exclusive : Exclusive s.Owns (· ∈ s.opened)

variable {settings : PoolSettings} {enabled : Bool} {s s' : Sockets κ}

omit [DecidableEq κ] in
theorem Sound.initial : (initial : Sockets κ).Sound settings := by
  refine ⟨.initial, ?_, ?_⟩
  · rintro (⟨client, ssl⟩ | ⟨node⟩ | -) handle owned <;> simp [Owns, Sockets.initial, Pool.initial] at owned
  · rintro (⟨client, ssl⟩ | ⟨node⟩ | -) other handle owned <;> simp [Owns, Sockets.initial, Pool.initial] at owned

theorem owns_put {client : κ} {ssl : Bool} {value : Option Int} {owner : Owner κ} {handle : Int}
    (owned : (s.put client ssl value).Owns owner handle) :
    owner = .socket client ssl ∧ value = some handle ∨ owner ≠ .socket client ssl ∧ s.Owns owner handle := by
  cases owner with
  | socket client' ssl' =>
      by_cases same : (client', ssl') = (client, ssl)
      · cases same
        exact .inl ⟨rfl, by simpa [put, Owns] using owned⟩
      · refine .inr ⟨fun eq => same (by cases eq; rfl), ?_⟩
        simpa [put, Owns, Function.update_of_ne same] using owned
  | ready node => exact .inr ⟨nofun, owned⟩
  | foreign => exact .inr ⟨nofun, owned⟩

theorem Sound.closeSocket (sound : s.Sound settings) (client : κ) (ssl : Bool) :
    (s.closeSocket client ssl).Sound settings := by
  refine ⟨sound.pool, sound.exclusive.close (fun owner _ => owner = .socket client ssl) ?_ ?_⟩
  · intro owner handle owned
    rcases owns_put owned with ⟨-, none⟩ | ⟨other, owned⟩
    · cases none
    · exact ⟨owned, other⟩
  · intro handle isOpen free
    refine List.mem_filter.mpr ⟨isOpen, ?_⟩
    simpa [Owns] using free _ rfl

theorem Sound.put {handle : Int} (sound : s.Sound settings) (client : κ) (ssl : Bool) (isOpen : handle ∈ s.opened)
    (free : ∀ owner, ¬s.Owns owner handle) : (s.put client ssl (some handle)).Sound settings := by
  refine ⟨sound.pool, sound.exclusive.give (.socket client ssl) free isOpen (fun _ => id) fun owner other owned => ?_⟩
  rcases owns_put owned with ⟨rfl, same⟩ | ⟨-, owned⟩
  · exact .inr ⟨rfl, (Option.some.inj same).symm⟩
  · exact .inl owned

omit [DecidableEq κ] in
theorem owns_pool {pool : Pool κ} (fewer : ∀ it ∈ pool.ready, it ∈ s.pool.ready) {owner : Owner κ} {handle : Int}
    (owned : Owns { s with pool := pool } owner handle) : s.Owns owner handle := by
  cases owner with
  | socket client ssl => exact owned
  | ready node =>
      obtain ⟨it, inside, rest⟩ := owned
      exact ⟨it, fewer it inside, rest⟩
  | foreign => exact owned

omit [DecidableEq κ] in
theorem Sound.readyNodes (sound : s.Sound settings) : (s.pool.ready.map EpDescr.node).Nodup := by
  have nodup := sound.pool.nodup
  rw [Pool.entries, List.map_append] at nodup
  exact nodup.of_append_left

theorem Sound.checkout (sound : s.Sound settings) (client : κ) (host : Bytes) :
    (s.checkout settings client host).Sound settings ∧
      ∀ it, (s.checkout settings client host).entry client = some it → it.socket ≠ -1 →
        it.socket ∈ s.opened ∧ ∀ owner, ¬(s.checkout settings client host).Owns owner it.socket := by
  have pool : (s.checkout settings client host).pool.Sound settings := by
    have stepped : s.pool.step settings (.checkout client host) = some (s.checkout settings client host).pool := rfl
    exact sound.pool.step stepped
  have nodes := sound.readyNodes
  rcases Pool.checkout_cases settings s.pool host with ⟨it, inside, -, eq⟩ | ⟨-, ⟨-, eq⟩ | ⟨-, eq⟩⟩
  · have ready : (s.checkout settings client host).pool.ready = s.pool.ready.erase it := by
      simp [Sockets.checkout, eq, Pool.hold]
    have fewer : ∀ it' ∈ (s.checkout settings client host).pool.ready, it' ∈ s.pool.ready := by
      rw [ready]
      exact fun it' => List.mem_of_mem_erase
    have owned : s.Owns (.ready it.node) it.socket := ⟨it, inside, rfl, rfl⟩
    refine ⟨⟨pool, sound.exclusive.keep fun owner handle => owns_pool fewer⟩, fun it' found _ => ?_⟩
    have same : it = it' := by simpa [Sockets.checkout, entry, eq, Pool.hold] using found
    subst same
    refine ⟨sound.exclusive.live _ _ owned, fun owner owned' => ?_⟩
    have same := sound.exclusive.only _ _ _ (owns_pool fewer owned') owned
    subst same
    obtain ⟨it', inside', node, -⟩ := owned'
    rw [ready, nodes.of_map.mem_erase_iff] at inside'
    exact inside'.1 (List.inj_on_of_nodup_map nodes inside'.2 inside node)
  · have fewer : ∀ it' ∈ (s.checkout settings client host).pool.ready, it' ∈ s.pool.ready := by
      simp [Sockets.checkout, eq, Pool.hold]
    refine ⟨⟨pool, sound.exclusive.keep fun owner handle => owns_pool fewer⟩, fun it found isOpen => ?_⟩
    have same : ⟨s.pool.nodes, cStr host, -1, 0⟩ = it := by
      simpa [Sockets.checkout, entry, eq, Pool.hold] using found
    exact absurd (congrArg EpDescr.socket same).symm isOpen
  · have fewer : ∀ it' ∈ (s.checkout settings client host).pool.ready, it' ∈ s.pool.ready := by
      simp [Sockets.checkout, eq, Pool.hold]
    refine ⟨⟨pool, sound.exclusive.keep fun owner handle => owns_pool fewer⟩, fun it found => ?_⟩
    simp [Sockets.checkout, entry, eq, Pool.hold] at found

theorem Sound.execute (sound : s.Sound settings) (client : κ) (host : Bytes) (ssl usable : Bool) :
    (s.execute settings client host ssl usable).Sound settings := by
  obtain ⟨checked, offered⟩ := sound.checkout client host
  unfold Sockets.execute
  cases found : (s.checkout settings client host).entry client with
  | none => simpa only [found] using checked
  | some it =>
      simp only [found]
      split
      · exact checked
      · rename_i isOpen
        obtain ⟨inside, free⟩ := offered it found isOpen
        split
        · have taken := checked.put client ssl inside free
          split
          · exact taken
          · exact (taken.closeSocket client false).closeSocket client true
        · exact (checked.closeSocket client false).closeSocket client true

omit [DecidableEq κ] in
theorem checkin_assigned {pool : Pool κ} {client : κ} {object : Nat} (sound : pool.Sound settings)
    (held : pool.held client = some object) (handle now : Int) :
    ((pool.assign object handle).checkin settings object now).ready = pool.ready ∨
      handle ≠ -1 ∧ ∃ it, it.node = object ∧ it.socket = handle ∧
        ((pool.assign object handle).checkin settings object now).ready = it :: pool.ready := by
  have busy := (sound.assign object handle).busy client object held
  obtain ⟨it, inside, node, ⟨-, eq⟩ | ⟨isOpen, eq⟩⟩ := Pool.checkin_cases settings now busy
  · rw [eq]
    exact .inl rfl
  · have assigned : it.socket = handle := by
      obtain ⟨old, -, rfl⟩ := List.mem_map.mp inside
      split at node
      case isTrue same => simp [same]
      case isFalse other => exact absurd node other
    rw [eq]
    exact .inr ⟨assigned ▸ isOpen, { it with ttl := now + settings.ttl }, node, assigned, rfl⟩

theorem Sound.release {object : Nat} (sound : s.Sound settings) (client : κ) (ssl : Bool)
    (held : s.pool.held client = some object) (now : Int) :
    (s.release settings client ssl object now).Sound settings := by
  have released : Exclusive (s.put client ssl none).Owns (· ∈ s.opened) := by
    refine sound.exclusive.keep fun owner handle owned => ?_
    rcases owns_put owned with ⟨-, none⟩ | ⟨-, owned⟩
    · cases none
    · exact owned
  have pool := (sound.pool.assign object ((s.socket (client, ssl)).getD (-1))).checkin held now
  refine ⟨pool, ?_⟩
  rcases checkin_assigned sound.pool held ((s.socket (client, ssl)).getD (-1)) now with
    same | ⟨isOpen, it, node, socket, more⟩
  · refine released.keep fun owner handle => owns_pool fun it inside => ?_
    rw [Pool.hold, same] at inside
    exact inside
  · obtain ⟨handle, holds⟩ : ∃ handle, s.socket (client, ssl) = some handle := by
      cases holds : s.socket (client, ssl) with
      | none => simp [holds] at isOpen
      | some handle => exact ⟨handle, rfl⟩
    have owned : s.Owns (.socket client ssl) handle := holds
    have free : ∀ owner, ¬(s.put client ssl none).Owns owner handle := by
      intro owner owned'
      rcases owns_put owned' with ⟨-, none⟩ | ⟨other, owned'⟩
      · cases none
      · exact other (sound.exclusive.only _ _ _ owned' owned)
    refine released.give (.ready object) free (sound.exclusive.live _ _ owned) (fun _ => id) ?_
    rintro (⟨client', ssl'⟩ | ⟨node'⟩ | -) handle' owned'
    · exact .inl owned'
    · obtain ⟨it', inside, same, value⟩ := owned'
      simp only [Sockets.release, Pool.hold, more, List.mem_cons] at inside
      rcases inside with rfl | inside
      · refine .inr ⟨by rw [← same, node], ?_⟩
        rw [← value, socket, holds, Option.getD_some]
      · exact .inl ⟨it', inside, same, value⟩
    · exact .inl owned'

theorem Sound.close (sound : s.Sound settings) (enabled : Bool) (client : κ) (ssl force : Bool) (now : Int) :
    (s.close settings enabled client ssl force now).Sound settings := by
  unfold Sockets.close
  split
  case h_1 object held =>
    have forced : (if force then s.closeSocket client false else s).Sound settings := by
      split
      · exact sound.closeSocket client false
      · exact sound
    have kept : (if force then s.closeSocket client false else s).pool.held client = some object := by
      split <;> exact held
    have released := forced.release client ssl kept now
    dsimp only
    split
    · exact released.closeSocket client false
    · exact released
  case h_2 => exact sound.closeSocket client false

theorem Sound.connect {handle : Int} (sound : s.Sound settings) (client : κ) (ssl : Bool)
    (fresh : s.isFresh handle = true) :
    Sound settings { s.put client ssl (some handle) with opened := handle :: s.opened } := by
  simp only [isFresh, Bool.and_eq_true, Bool.not_eq_true', List.contains_eq_mem, decide_eq_false_iff_not] at fresh
  have free : ∀ owner, ¬s.Owns owner handle := fun owner owned => fresh.2 (sound.exclusive.live _ _ owned)
  refine ⟨sound.pool, sound.exclusive.give (.socket client ssl) free List.mem_cons_self
    (fun _ => List.mem_cons_of_mem handle) fun owner other owned => ?_⟩
  rcases owns_put owned with ⟨rfl, same⟩ | ⟨-, owned⟩
  · exact .inr ⟨rfl, (Option.some.inj same).symm⟩
  · exact .inl owned

theorem Sound.sweep {now : Int} (sound : s.Sound settings) (swept : s.step settings enabled (.sweep now) = some s') :
    s'.Sound settings := by
  cases swept
  let expired : Owner κ → Int → Prop
    | .ready node, _ => ∃ it ∈ s.pool.ready, it.node = node ∧ it.ttl ≤ now
    | _, _ => False
  refine ⟨sound.pool.sweep now, sound.exclusive.close expired ?_ ?_⟩
  · rintro (⟨client, ssl⟩ | ⟨node⟩ | -) handle owned
    · exact ⟨owned, id⟩
    · obtain ⟨it, inside, rfl, socket⟩ := owned
      obtain ⟨inside, kept⟩ := List.mem_filter.mp inside
      refine ⟨⟨it, inside, rfl, socket⟩, ?_⟩
      rintro ⟨other, inside', node, gone⟩
      cases List.inj_on_of_nodup_map sound.readyNodes inside' inside node
      exact absurd (of_decide_eq_true kept) (not_lt.mpr gone)
    · exact ⟨owned, id⟩
  · intro handle isOpen free
    refine List.mem_filter.mpr ⟨isOpen, ?_⟩
    simp only [List.contains_eq_mem, List.mem_map, List.mem_filter, Bool.not_eq_true', decide_eq_false_iff_not,
      decide_eq_true_eq]
    rintro ⟨it, ⟨inside, gone⟩, socket⟩
    exact free (.ready it.node) ⟨it, inside, rfl, gone⟩ ⟨it, inside, rfl, socket⟩

theorem Sound.step {event : Event κ} (sound : s.Sound settings) (runs : event.isCleanup = false)
    (stepped : s.step settings enabled event = some s') : s'.Sound settings := by
  cases event with
  | execute client host ssl usable =>
      cases stepped
      split
      · exact sound.execute client host ssl usable
      · exact sound
  | connect client ssl handle =>
      simp only [Sockets.step, Option.ite_none_right_eq_some, Option.some.injEq] at stepped
      obtain ⟨fresh, rfl⟩ := stepped
      exact (sound.closeSocket client ssl).connect client ssl fresh
  | close client ssl force now => exact Option.some.inj stepped ▸ sound.close enabled client ssl force now
  | destroy client ssl now =>
      cases stepped
      exact ((sound.close enabled client ssl false now).closeSocket client false).closeSocket client true
  | sweep now => exact sound.sweep stepped
  | cleanup => cases runs
  | openForeign handle =>
      simp only [Sockets.step, isFresh, Bool.and_eq_true, Bool.not_eq_true', List.contains_eq_mem,
        decide_eq_false_iff_not, Option.ite_none_right_eq_some, Option.some.injEq] at stepped
      obtain ⟨⟨-, fresh⟩, rfl⟩ := stepped
      have free : ∀ owner, ¬s.Owns owner handle := fun owner owned => fresh (sound.exclusive.live _ _ owned)
      refine ⟨sound.pool, sound.exclusive.give .foreign free List.mem_cons_self
        (fun _ => List.mem_cons_of_mem handle) ?_⟩
      rintro (⟨client, ssl⟩ | ⟨node⟩ | -) other owned
      · exact .inl owned
      · exact .inl owned
      · rcases List.mem_cons.mp owned with same | owned
        · exact .inr ⟨rfl, same⟩
        · exact .inl owned
  | closeForeign handle =>
      simp only [Sockets.step, Option.ite_none_right_eq_some, Option.some.injEq] at stepped
      obtain ⟨inside, rfl⟩ := stepped
      have owned : s.Owns .foreign handle := inside
      refine ⟨sound.pool, sound.exclusive.close (fun owner other => owner = .foreign ∧ other = handle) ?_ ?_⟩
      · rintro (⟨client, ssl⟩ | ⟨node⟩ | -) other owned'
        · exact ⟨owned', fun gone => nomatch gone.1⟩
        · exact ⟨owned', fun gone => nomatch gone.1⟩
        · obtain ⟨owned', kept⟩ := List.mem_filter.mp owned'
          exact ⟨owned', fun gone => of_decide_eq_true kept gone.2⟩
      · intro other isOpen free
        refine List.mem_filter.mpr ⟨isOpen, ?_⟩
        simp only [ne_eq, decide_not, Bool.not_eq_true', decide_eq_false_iff_not]
        rintro rfl
        exact free .foreign ⟨rfl, rfl⟩ owned

theorem sockets_exclusive (settings : PoolSettings) (enabled : Bool) (s : Sockets κ)
    (reached : Reached (step settings enabled) (fun _ event => event.isCleanup = false) initial s) :
    (∀ owner handle, s.Owns owner handle → handle ∈ s.opened) ∧
      ∀ owner other handle, s.Owns owner handle → s.Owns other handle → owner = other := by
  have sound : s.Sound settings := by
    induction reached with
    | start => exact .initial
    | step _ runs stepped ih => exact ih.step runs stepped
  exact ⟨sound.exclusive.live, sound.exclusive.only⟩

namespace Sample

def shared : List (Event Bool) :=
  [.execute false (text "node") false true, .connect false false 5, .close false false false 100,
    .execute true (text "node") false true, .connect false false 6, .close false false true 110, .openForeign 6]

end Sample

theorem sockets_exclusive_after_reuse :
    ∃ s : Sockets Bool, Reached (step Pool.Sample.single true) (fun _ event => event.isCleanup = false) initial s ∧
      s.Owns (.socket true false) 5 ∧ s.Owns .foreign 6 ∧ 5 ∈ s.opened ∧ 6 ∈ s.opened := by
  obtain ⟨s, ran, pooled, foreign⟩ : ∃ s : Sockets Bool,
      runAllowed (step Pool.Sample.single true) (fun _ event => event.isCleanup = false) initial Sample.shared = some s ∧
        s.socket (true, false) = some 5 ∧ s.foreign = [6] := ⟨_, rfl, rfl, rfl⟩
  have reached := Reached.run .start ran
  obtain ⟨live, -⟩ := sockets_exclusive Pool.Sample.single true s reached
  have taken : s.Owns (.socket true false) 5 := pooled
  have other : s.Owns .foreign 6 := by simp [Owns, foreign]
  exact ⟨s, reached, taken, other, live _ _ taken, live _ _ other⟩

-- The end of the monitor closes the connection that the second request has taken.
example :
    ∃ s : Sockets Bool, Reached (step Pool.Sample.single true) (fun _ _ => True) initial s ∧
      s.Owns (.socket true false) 5 ∧ 5 ∉ s.opened := by
  obtain ⟨s, ran, pooled, closed⟩ : ∃ s : Sockets Bool,
      runAllowed (step Pool.Sample.single true) (fun _ _ => True) initial (Sample.shared ++ [.cleanup]) = some s ∧
        s.socket (true, false) = some 5 ∧ s.opened = [6] := ⟨_, rfl, rfl, rfl⟩
  exact ⟨s, Reached.run .start ran, pooled, by simp [closed]⟩

end Sockets

end FullnodeClient.Net
