import FullnodeClient.Lib.Log
import FullnodeClient.Text.Hex

/-!
# The connection pool

`socket_pool` of `connection_pool.cpp` while it is enabled, with the clients that check entries out.
Every operation runs under the lock in one step. A client names its entry by the node of the list.
-/

namespace FullnodeClient.Net
open FullnodeClient.Lib FullnodeClient.Text

structure EpDescr where
  node : Nat
  ep : Bytes
  socket : Int
  ttl : Int
deriving DecidableEq

structure PoolSettings where
  capacity : Nat
  ttl : Nat

structure Pool (κ : Type) where
  ready : List EpDescr
  busy : List EpDescr
  nodes : Nat
  -- The `pool_object` of each client; `none` is `m_busy.end()`.
  held : κ → Option Nat

inductive PoolEvent (κ : Type)
  | checkout (client : κ) (host : Bytes)
  | assign (client : κ) (socket : Int)
  | checkin (client : κ) (now : Int)
  | sweep (now : Int)

namespace Pool

variable {κ : Type}

def initial : Pool κ := ⟨[], [], 0, fun _ => none⟩

def size (pool : Pool κ) : Nat := pool.busy.length + pool.ready.length

def hold [DecidableEq κ] (pool : Pool κ) (client : κ) (object : Option Nat) : Pool κ :=
  { pool with held := Function.update pool.held client object }

def checkout (settings : PoolSettings) (pool : Pool κ) (host : Bytes) : Pool κ × Option Nat :=
  match pool.ready.find? (·.ep = host) with
  | some it => ({ pool with ready := pool.ready.erase it, busy := it :: pool.busy }, some it.node)
  | none =>
    if pool.size < settings.capacity then
      -- The constructor of `ep_descr` takes a C string.
      let it : EpDescr := ⟨pool.nodes, cStr host, -1, 0⟩
      ({ pool with busy := it :: pool.busy, nodes := pool.nodes + 1 }, some it.node)
    else (pool, none)

def checkin (settings : PoolSettings) (pool : Pool κ) (object : Nat) (now : Int) : Pool κ :=
  match pool.busy.find? (·.node = object) with
  | some it =>
    if it.socket = -1 then { pool with busy := pool.busy.erase it }
    else
      { pool with
        ready := { it with ttl := now + settings.ttl } :: pool.ready
        busy := pool.busy.erase it }
  | none => pool

def assign (pool : Pool κ) (object : Nat) (socket : Int) : Pool κ :=
  { pool with busy := pool.busy.map fun it => if it.node = object then { it with socket := socket } else it }

def sweep (pool : Pool κ) (now : Int) : Pool κ :=
  { pool with ready := pool.ready.filter fun it => now < it.ttl }

/-- What the monitor does when it ends. The clients keep what they hold. -/
def cleanup (pool : Pool κ) : Pool κ := { pool with ready := [], busy := [] }

def step [DecidableEq κ] (settings : PoolSettings) (pool : Pool κ) : PoolEvent κ → Option (Pool κ)
  | .checkout client host =>
    let (pool, object) := pool.checkout settings host
    some (pool.hold client object)
  | .assign client socket => (pool.held client).map fun object => pool.assign object socket
  | .checkin client now =>
    (pool.held client).map fun object => (pool.checkin settings object now).hold client none
  | .sweep now => some (pool.sweep now)

/-! ## The invariant -/

def entries (pool : Pool κ) : List EpDescr := pool.ready ++ pool.busy

structure Sound (settings : PoolSettings) (pool : Pool κ) : Prop where
  size : pool.size ≤ settings.capacity
  sockets : ∀ it ∈ pool.ready, it.socket ≠ -1
  nodup : (pool.entries.map EpDescr.node).Nodup
  allocated : ∀ it ∈ pool.entries, it.node < pool.nodes
  plain : ∀ it ∈ pool.entries, cStr it.ep = it.ep
  busy : ∀ client object, pool.held client = some object → object ∈ pool.busy.map EpDescr.node
  holder : ∀ client other object, pool.held client = some object → pool.held other = some object → client = other

variable {settings : PoolSettings} {pool after : Pool κ}

theorem Sound.initial : (initial : Pool κ).Sound settings where
  size := Nat.zero_le _
  sockets := by simp [Pool.initial]
  nodup := List.nodup_nil
  allocated := by simp [Pool.initial, entries]
  plain := by simp [Pool.initial, entries]
  busy := by simp [Pool.initial]
  holder := by simp [Pool.initial]

theorem checkout_cases (settings : PoolSettings) (pool : Pool κ) (host : Bytes) :
    (∃ it ∈ pool.ready, it.ep = host ∧ pool.checkout settings host =
      ({ pool with ready := pool.ready.erase it, busy := it :: pool.busy }, some it.node)) ∨
    (∀ it ∈ pool.ready, it.ep ≠ host) ∧
      (pool.size < settings.capacity ∧ pool.checkout settings host =
        ({ pool with busy := ⟨pool.nodes, cStr host, -1, 0⟩ :: pool.busy, nodes := pool.nodes + 1 },
          some pool.nodes) ∨
      settings.capacity ≤ pool.size ∧ pool.checkout settings host = (pool, none)) := by
  unfold checkout
  cases found : pool.ready.find? (·.ep = host) with
  | some it =>
      refine .inl ⟨it, List.mem_of_find?_eq_some found, ?_, rfl⟩
      simpa using List.find?_some found
  | none =>
      refine .inr ⟨by simpa using found, ?_⟩
      by_cases room : pool.size < settings.capacity
      · exact .inl ⟨room, if_pos room⟩
      · exact .inr ⟨not_lt.mp room, if_neg room⟩

theorem checkin_cases (settings : PoolSettings) {object : Nat} (now : Int)
    (held : object ∈ pool.busy.map EpDescr.node) :
    ∃ it ∈ pool.busy, it.node = object ∧
      (it.socket = -1 ∧ pool.checkin settings object now = { pool with busy := pool.busy.erase it } ∨
      it.socket ≠ -1 ∧ pool.checkin settings object now = { pool with
        ready := { it with ttl := now + settings.ttl } :: pool.ready
        busy := pool.busy.erase it }) := by
  unfold checkin
  cases found : pool.busy.find? (·.node = object) with
  | none =>
      obtain ⟨it, inside, same⟩ := List.mem_map.mp held
      exact absurd same (by simpa using List.find?_eq_none.mp found it inside)
  | some it =>
      refine ⟨it, List.mem_of_find?_eq_some found, by simpa using List.find?_some found, ?_⟩
      by_cases closed : it.socket = -1
      · exact .inl ⟨closed, if_pos closed⟩
      · exact .inr ⟨closed, if_neg closed⟩

theorem Sound.hold [DecidableEq κ] {object : Option Nat} (sound : pool.Sound settings) (client : κ)
    (inside : ∀ node ∈ object, node ∈ pool.busy.map EpDescr.node)
    (free : ∀ node ∈ object, ∀ other, pool.held other ≠ some node) : (pool.hold client object).Sound settings := by
  refine { sound with busy := fun other node held => ?_, holder := fun one two node held held' => ?_ }
  · by_cases same : other = client
    · subst same
      exact inside node (by simpa [Pool.hold] using held)
    · exact sound.busy other node (by simpa [Pool.hold, same] using held)
  · by_cases first : one = client <;> by_cases second : two = client
    · rw [first, second]
    · refine absurd ?_ (free node (by simpa [Pool.hold, first] using held) two)
      simpa [Pool.hold, second] using held'
    · refine absurd ?_ (free node (by simpa [Pool.hold, second] using held') one)
      simpa [Pool.hold, first] using held
    · exact sound.holder one two node (by simpa [Pool.hold, first] using held)
        (by simpa [Pool.hold, second] using held')

theorem Sound.ready_not_held {it : EpDescr} (sound : pool.Sound settings) (inside : it ∈ pool.ready) (client : κ) :
    pool.held client ≠ some it.node := by
  intro held
  have nodup := sound.nodup
  rw [entries, List.map_append, List.nodup_append] at nodup
  exact nodup.2.2 _ (List.mem_map_of_mem inside) _ (sound.busy client it.node held) rfl

theorem Sound.node_not_held (sound : pool.Sound settings) (client : κ) : pool.held client ≠ some pool.nodes := by
  intro held
  obtain ⟨it, inside, same⟩ := List.mem_map.mp (sound.busy client pool.nodes held)
  have allocated := sound.allocated it (List.mem_append_right _ inside)
  exact absurd same allocated.ne

theorem Sound.take {it : EpDescr} (sound : pool.Sound settings) (inside : it ∈ pool.ready) :
    { pool with ready := pool.ready.erase it, busy := it :: pool.busy }.Sound settings := by
  have moved : (pool.ready.erase it ++ it :: pool.busy).Perm pool.entries :=
    List.perm_middle.trans ((List.perm_cons_erase inside).symm.append_right pool.busy)
  refine ⟨?_, ?_, ?_, ?_, ?_, ?_, sound.holder⟩
  · have length := moved.length_eq
    have bound := sound.size
    simp only [entries, List.length_append] at length
    simp only [Pool.size] at bound ⊢
    omega
  · exact fun other ready => sound.sockets other (List.mem_of_mem_erase ready)
  · exact (moved.map _).nodup_iff.mpr sound.nodup
  · exact fun other member => sound.allocated other (moved.mem_iff.mp member)
  · exact fun other member => sound.plain other (moved.mem_iff.mp member)
  · exact fun client object held => List.mem_cons_of_mem _ (sound.busy client object held)

theorem Sound.insert (sound : pool.Sound settings) (room : pool.size < settings.capacity) (host : Bytes) :
    { pool with busy := ⟨pool.nodes, cStr host, -1, 0⟩ :: pool.busy, nodes := pool.nodes + 1 }.Sound settings := by
  have added : (pool.ready ++ ⟨pool.nodes, cStr host, -1, 0⟩ :: pool.busy).Perm
      (⟨pool.nodes, cStr host, -1, 0⟩ :: pool.entries) := List.perm_middle
  refine ⟨?_, sound.sockets, ?_, ?_, ?_, ?_, sound.holder⟩
  · simp only [Pool.size, List.length_cons] at room ⊢
    omega
  · refine (added.map _).nodup_iff.mpr (List.nodup_cons.mpr ⟨fun present => ?_, sound.nodup⟩)
    obtain ⟨it, inside, same⟩ := List.mem_map.mp present
    exact absurd same (sound.allocated it inside).ne
  · intro it member
    rcases List.mem_cons.mp (added.mem_iff.mp member) with rfl | old
    · exact Nat.lt_succ_self _
    · exact (sound.allocated it old).trans (Nat.lt_succ_self _)
  · intro it member
    rcases List.mem_cons.mp (added.mem_iff.mp member) with rfl | old
    · exact cStr_cStr host
    · exact sound.plain it old
  · exact fun client object held => List.mem_cons_of_mem _ (sound.busy client object held)

theorem Sound.checkout [DecidableEq κ] (sound : pool.Sound settings) (client : κ) (host : Bytes) :
    ((pool.checkout settings host).1.hold client (pool.checkout settings host).2).Sound settings := by
  rcases checkout_cases settings pool host with ⟨it, inside, -, eq⟩ | ⟨-, ⟨room, eq⟩ | ⟨-, eq⟩⟩
  · rw [eq]
    refine (sound.take inside).hold client ?_ ?_
    · rintro node ⟨⟩
      exact List.mem_cons_self
    · rintro node ⟨⟩ other
      exact sound.ready_not_held inside other
  · rw [eq]
    refine (sound.insert room host).hold client ?_ ?_
    · rintro node ⟨⟩
      exact List.mem_cons_self
    · rintro node ⟨⟩ other
      exact sound.node_not_held other
  · rw [eq]
    exact sound.hold client (fun node none => nomatch none) (fun node none => nomatch none)

theorem mem_erase_of_node_ne {it : EpDescr} {object : Nat} (other : object ≠ it.node)
    (inside : object ∈ pool.busy.map EpDescr.node) : object ∈ (pool.busy.erase it).map EpDescr.node := by
  obtain ⟨entry, member, rfl⟩ := List.mem_map.mp inside
  refine List.mem_map_of_mem ((List.mem_erase_of_ne ?_).mpr member)
  rintro rfl
  exact other rfl

theorem Sound.drop {it : EpDescr} (sound : pool.Sound settings) (free : ∀ client, pool.held client ≠ some it.node) :
    { pool with busy := pool.busy.erase it }.Sound settings := by
  have kept : (pool.ready ++ pool.busy.erase it).Sublist pool.entries := (List.erase_sublist).append_left _
  refine ⟨?_, sound.sockets, (kept.map _).nodup sound.nodup, ?_, ?_, ?_, sound.holder⟩
  · have length := kept.length_le
    have bound := sound.size
    simp only [entries, List.length_append] at length
    simp only [Pool.size] at bound ⊢
    omega
  · exact fun entry member => sound.allocated entry (kept.subset member)
  · exact fun entry member => sound.plain entry (kept.subset member)
  · intro client object held
    refine mem_erase_of_node_ne ?_ (sound.busy client object held)
    rintro rfl
    exact free client held

theorem Sound.return {it : EpDescr} (sound : pool.Sound settings) (inside : it ∈ pool.busy)
    (free : ∀ client, pool.held client ≠ some it.node) (isOpen : it.socket ≠ -1) (ttl : Int) :
    { pool with ready := { it with ttl := ttl } :: pool.ready, busy := pool.busy.erase it }.Sound settings := by
  have moved : (it :: (pool.ready ++ pool.busy.erase it)).Perm pool.entries :=
    List.perm_middle.symm.trans ((List.perm_cons_erase inside).symm.append_left pool.ready)
  have rest {entry : EpDescr} (member : entry ∈ pool.ready ++ pool.busy.erase it) : entry ∈ pool.entries :=
    moved.mem_iff.mp (List.mem_cons_of_mem _ member)
  have itself : it ∈ pool.entries := List.mem_append_right _ inside
  refine ⟨?_, ?_, ?_, ?_, ?_, ?_, sound.holder⟩
  · have length := moved.length_eq
    have bound := sound.size
    simp only [entries, List.length_cons, List.length_append] at length
    simp only [Pool.size, List.length_cons] at bound ⊢
    omega
  · exact List.forall_mem_cons.mpr ⟨isOpen, sound.sockets⟩
  · exact (moved.map EpDescr.node).nodup_iff.mpr sound.nodup
  · exact List.forall_mem_cons.mpr ⟨sound.allocated it itself,
      fun entry member => sound.allocated entry (rest member)⟩
  · exact List.forall_mem_cons.mpr ⟨sound.plain it itself, fun entry member => sound.plain entry (rest member)⟩
  · intro client object held
    refine mem_erase_of_node_ne ?_ (sound.busy client object held)
    rintro rfl
    exact free client held

theorem checkin_hold [DecidableEq κ] (settings : PoolSettings) (pool : Pool κ) (object : Nat)
    (now : Int) (client : κ) :
    (pool.checkin settings object now).hold client none = (pool.hold client none).checkin settings object now := by
  unfold checkin
  cases found : pool.busy.find? (·.node = object) with
  | none => simp only [Pool.hold, found]
  | some it =>
      simp only [Pool.hold, found]
      split <;> rfl

theorem Sound.checkin [DecidableEq κ] {client : κ} {object : Nat} (sound : pool.Sound settings)
    (held : pool.held client = some object) (now : Int) :
    ((pool.checkin settings object now).hold client none).Sound settings := by
  rw [checkin_hold]
  -- The client lets its entry go first, so that the entry leaves the busy list with nobody holding it.
  have dropped : (pool.hold client none).Sound settings :=
    sound.hold client (fun node none => nomatch none) (fun node none => nomatch none)
  have free (other : κ) : (pool.hold client none).held other ≠ some object := by
    intro held'
    by_cases same : other = client
    · simp [Pool.hold, same] at held'
    · have holds : pool.held other = some object := by simpa [Pool.hold, same] using held'
      exact same (sound.holder other client object holds held)
  have busy : object ∈ (pool.hold client none).busy.map EpDescr.node := sound.busy client object held
  obtain ⟨it, inside, rfl, ⟨-, eq⟩ | ⟨isOpen, eq⟩⟩ := checkin_cases settings now busy
  · rw [eq]
    exact dropped.drop free
  · rw [eq]
    exact dropped.return inside free isOpen _

theorem Sound.assign (sound : pool.Sound settings) (object : Nat) (socket : Int) :
    (pool.assign object socket).Sound settings := by
  have nodes : (pool.assign object socket).busy.map EpDescr.node = pool.busy.map EpDescr.node := by
    rw [Pool.assign, List.map_map]
    refine List.map_congr_left fun it _ => ?_
    simp only [Function.comp_apply]
    split <;> rfl
  have same {it : EpDescr} (member : it ∈ (pool.assign object socket).entries) :
      ∃ old ∈ pool.entries, old.node = it.node ∧ old.ep = it.ep := by
    rcases List.mem_append.mp member with ready | busy
    · exact ⟨it, List.mem_append_left _ ready, rfl, rfl⟩
    · obtain ⟨old, inside, rfl⟩ := List.mem_map.mp busy
      refine ⟨old, List.mem_append_right _ inside, ?_⟩
      split <;> exact ⟨rfl, rfl⟩
  refine ⟨?_, sound.sockets, ?_, ?_, ?_, ?_, sound.holder⟩
  · simpa [Pool.size, Pool.assign] using sound.size
  · have nodup := sound.nodup
    rw [entries, List.map_append] at nodup ⊢
    rwa [nodes]
  · intro it member
    obtain ⟨old, inside, node, -⟩ := same member
    exact node ▸ sound.allocated old inside
  · intro it member
    obtain ⟨old, inside, -, ep⟩ := same member
    exact ep ▸ sound.plain old inside
  · intro client node held
    rw [nodes]
    exact sound.busy client node held

theorem Sound.sweep (sound : pool.Sound settings) (now : Int) : (pool.sweep now).Sound settings := by
  have kept : (pool.sweep now).entries.Sublist pool.entries := List.filter_sublist.append_right _
  refine ⟨?_, fun it ready => sound.sockets it (List.mem_of_mem_filter ready), (kept.map _).nodup sound.nodup,
    fun it member => sound.allocated it (kept.subset member), fun it member => sound.plain it (kept.subset member),
    sound.busy, sound.holder⟩
  have fewer := List.length_filter_le (fun it : EpDescr => decide (now < it.ttl)) pool.ready
  have bound := sound.size
  simp only [Pool.size, Pool.sweep] at bound ⊢
  omega

theorem Sound.step [DecidableEq κ] {event : PoolEvent κ} (sound : pool.Sound settings)
    (stepped : pool.step settings event = some after) : after.Sound settings := by
  cases event with
  | checkout client host => exact Option.some.inj stepped ▸ sound.checkout client host
  | assign client socket =>
      obtain ⟨object, -, rfl⟩ := Option.map_eq_some_iff.mp stepped
      exact sound.assign object socket
  | checkin client now =>
      obtain ⟨object, held, rfl⟩ := Option.map_eq_some_iff.mp stepped
      exact sound.checkin held now
  | sweep now => exact Option.some.inj stepped ▸ sound.sweep now

def Serves [DecidableEq κ] (settings : PoolSettings) (pool : Pool κ) : Prop :=
  ∀ client host after, 0 ∉ host → pool.step settings (.checkout client host) = some after →
    (∃ it ∈ after.busy, after.held client = some it.node ∧ it.ep = host) ∨
    after.held client = none ∧ (∀ it ∈ pool.ready, it.ep ≠ host) ∧ pool.size = settings.capacity

theorem Sound.serves [DecidableEq κ] (sound : pool.Sound settings) : pool.Serves settings := by
  intro client host after plain stepped
  obtain rfl : (pool.checkout settings host).1.hold client (pool.checkout settings host).2 = after :=
    Option.some.inj stepped
  rcases checkout_cases settings pool host with ⟨it, inside, ep, eq⟩ | ⟨absent, ⟨room, eq⟩ | ⟨full, eq⟩⟩
  · rw [eq]
    exact .inl ⟨it, List.mem_cons_self, by simp [Pool.hold], ep⟩
  · rw [eq]
    exact .inl ⟨_, List.mem_cons_self, by simp [Pool.hold], cStr_eq_self plain⟩
  · rw [eq]
    exact .inr ⟨by simp [Pool.hold], absent, le_antisymm sound.size full⟩

theorem pool_consistent {κ : Type} [DecidableEq κ] (settings : PoolSettings) (pool : Pool κ)
    (reached : Reached (step settings) (fun _ _ => True) initial pool) :
    pool.busy.length + pool.ready.length ≤ settings.capacity ∧
      (∀ it ∈ pool.ready, it.socket ≠ -1) ∧
      ((pool.ready ++ pool.busy).map EpDescr.node).Nodup ∧
      (∀ client object, pool.held client = some object →
        (∃ it ∈ pool.busy, it.node = object) ∧ ∀ other, pool.held other = some object → other = client) ∧
      pool.Serves settings := by
  have sound : pool.Sound settings := by
    induction reached with
    | start => exact Sound.initial
    | step _ _ stepped ih => exact ih.step stepped
  refine ⟨sound.size, sound.sockets, sound.nodup, fun client object held => ⟨?_, ?_⟩, sound.serves⟩
  · exact List.mem_map.mp (sound.busy client object held)
  · exact fun other held' => sound.holder other client object held' held

namespace Sample

def single : PoolSettings := ⟨1, 60⟩

def reuse : List (PoolEvent Bool) :=
  [.checkout false (text "node"), .assign false 7, .checkin false 100, .sweep 120, .checkout true (text "node")]

end Sample

theorem pool_consistent_after_reuse :
    ∃ pool : Pool Bool, Reached (step Sample.single) (fun _ _ => True) initial pool ∧
      pool.held true = some 0 ∧ pool.busy.map EpDescr.socket = [7] ∧ pool.Serves Sample.single := by
  have ran : runAllowed (step Sample.single) (fun _ _ => True) initial Sample.reuse = some _ := rfl
  have reached := Reached.run .start ran
  obtain ⟨-, -, -, -, serves⟩ := pool_consistent Sample.single _ reached
  exact ⟨_, reached, rfl, rfl, serves⟩

theorem checkout_cuts_host :
    ∃ pool : Pool Bool, Reached (step Sample.single) (fun _ _ => True) initial pool ∧
      ∃ client host after, pool.step Sample.single (.checkout client host) = some after ∧
        after.held client ≠ none ∧ ¬∃ it ∈ after.busy, after.held client = some it.node ∧ it.ep = host := by
  refine ⟨initial, .start, true, [97, 0, 98], _, rfl, by decide, ?_⟩
  rintro ⟨it, inside, -, ep⟩
  cases List.mem_singleton.mp inside
  exact absurd ep (by decide)

end Pool

end FullnodeClient.Net
