import FullnodeClient.Net.Pool

/-!
# The connections of one host

What the pool has for a host that one client uses alone.
-/

namespace FullnodeClient.Net
open FullnodeClient.Lib FullnodeClient.Text

variable {κ : Type} {settings : PoolSettings} {host : Bytes} {user : κ} {known : Int → Prop} {pool after : Pool κ}

structure Pool.Keeps (settings : PoolSettings) (host : Bytes) (user : κ) (known : Int → Prop) (pool : Pool κ) :
    Prop where
  sound : pool.Sound settings
  stock : ∀ it ∈ pool.entries, it.ep = host → it.socket = -1 ∨ known it.socket
  others : ∀ client, client ≠ user → ∀ it ∈ pool.busy, pool.held client = some it.node → it.ep ≠ host

def PoolEvent.Fits (host : Bytes) (user : κ) (known : Int → Prop) : PoolEvent κ → Prop
  | .checkout client asked => client = user ∨ cStr asked ≠ host
  | .assign client socket => client = user → socket = -1 ∨ known socket
  | .checkin _ _ | .sweep _ => True

namespace Pool

theorem Keeps.mono {known' : Int → Prop} (keeps : pool.Keeps settings host user known)
    (more : ∀ socket, known socket → known' socket) : pool.Keeps settings host user known' where
  sound := keeps.sound
  stock it inside same := (keeps.stock it inside same).imp_right (more it.socket)
  others := keeps.others

theorem Sound.eq_of_node {it other : EpDescr} (sound : pool.Sound settings) (first : it ∈ pool.busy)
    (second : other ∈ pool.busy) (same : it.node = other.node) : it = other := by
  have nodup := sound.nodup
  rw [entries, List.map_append] at nodup
  exact List.inj_on_of_nodup_map nodup.of_append_right first second same

theorem Sound.checkout_entry (sound : pool.Sound settings) (asked : Bytes) :
    (pool.checkout settings asked).2 = none ∧ (pool.checkout settings asked).1 = pool ∨
    ∃ it, (pool.checkout settings asked).2 = some it.node ∧ it.ep = cStr asked ∧
      (it ∈ pool.ready ∧ it.ep = asked ∨ it.socket = -1) ∧ (∀ client, pool.held client ≠ some it.node) ∧
      (pool.checkout settings asked).1.busy = it :: pool.busy ∧
      (∀ other ∈ (pool.checkout settings asked).1.ready, other ∈ pool.ready) ∧
      (pool.checkout settings asked).1.held = pool.held := by
  rcases checkout_cases settings pool asked with ⟨it, inside, ep, eq⟩ | ⟨-, ⟨-, eq⟩ | ⟨-, eq⟩⟩
  · rw [eq]
    have plain := sound.plain it (List.mem_append_left _ inside)
    exact .inr ⟨it, rfl, by rw [← ep, plain], .inl ⟨inside, ep⟩, sound.ready_not_held inside, rfl,
      fun other member => List.mem_of_mem_erase member, rfl⟩
  · rw [eq]
    exact .inr ⟨_, rfl, rfl, .inr rfl, sound.node_not_held, rfl, fun _ => id, rfl⟩
  · rw [eq]
    exact .inl ⟨rfl, rfl⟩

variable [DecidableEq κ]

theorem Keeps.checkout {client : κ} {asked : Bytes} (keeps : pool.Keeps settings host user known)
    (fits : client = user ∨ cStr asked ≠ host) :
    ((pool.checkout settings asked).1.hold client (pool.checkout settings asked).2).Keeps settings host user known := by
  have sound := keeps.sound.checkout client asked
  rcases keeps.sound.checkout_entry asked with ⟨refused, same⟩ | ⟨it, given, ep, source, free, busy, ready, held⟩
  · rw [refused, same] at sound ⊢
    refine ⟨sound, keeps.stock, fun other apart entry inside holds => ?_⟩
    by_cases itself : other = client
    · simp [Pool.hold, itself] at holds
    · exact keeps.others other apart entry inside (by simpa [Pool.hold, itself] using holds)
  · refine ⟨sound, fun entry inside same => ?_, fun other apart entry inside holds => ?_⟩
    · rcases List.mem_append.mp inside with inside | inside
      · exact keeps.stock entry (List.mem_append_left _ (ready entry inside)) same
      · rw [Pool.hold, busy, List.mem_cons] at inside
        rcases inside with rfl | inside
        · rcases source with ⟨inside, -⟩ | closed
          · exact keeps.stock entry (List.mem_append_left _ inside) same
          · exact .inl closed
        · exact keeps.stock entry (List.mem_append_right _ inside) same
    · by_cases itself : other = client
      · -- the entry is the one that was handed out
        have mine : it ∈ ((pool.checkout settings asked).1.hold client (pool.checkout settings asked).2).busy := by
          rw [Pool.hold, busy]
          exact List.mem_cons_self
        have node : it.node = entry.node := by simpa [Pool.hold, itself, given] using holds
        rw [← sound.eq_of_node mine inside node, ep]
        rcases fits with same | different
        · exact absurd (itself.trans same) apart
        · exact different
      · rw [Pool.hold, busy, List.mem_cons] at inside
        have holds : pool.held other = some entry.node := by simpa [Pool.hold, itself, held] using holds
        rcases inside with rfl | inside
        · exact absurd holds (free other)
        · exact keeps.others other apart entry inside holds

theorem Keeps.assign {client : κ} {object : Nat} {socket : Int} (keeps : pool.Keeps settings host user known)
    (held : pool.held client = some object) (fits : client = user → socket = -1 ∨ known socket) :
    (pool.assign object socket).Keeps settings host user known := by
  have changed {it : EpDescr} (inside : it ∈ (pool.assign object socket).busy) :
      ∃ old ∈ pool.busy, it.node = old.node ∧ it.ep = old.ep ∧ (it = old ∨ old.node = object ∧ it.socket = socket) := by
    obtain ⟨old, member, rfl⟩ := List.mem_map.mp inside
    refine ⟨old, member, ?_⟩
    split
    case isTrue same => exact ⟨rfl, rfl, .inr ⟨same, rfl⟩⟩
    case isFalse => exact ⟨rfl, rfl, .inl rfl⟩
  refine ⟨keeps.sound.assign object socket, fun it inside same => ?_, fun other apart it inside holds => ?_⟩
  · rcases List.mem_append.mp inside with inside | inside
    · exact keeps.stock it (List.mem_append_left _ inside) same
    · obtain ⟨old, member, -, ep, rfl | ⟨node, value⟩⟩ := changed inside
      · exact keeps.stock it (List.mem_append_right _ member) same
      · rw [value]
        by_cases itself : client = user
        · exact fits itself
        · exact absurd (ep.symm.trans same) (keeps.others client itself old member (by rw [held, node]))
  · obtain ⟨old, member, node, ep, -⟩ := changed inside
    rw [ep]
    exact keeps.others other apart old member (by rw [← node]; exact holds)

theorem Keeps.checkin {client : κ} {object : Nat} (keeps : pool.Keeps settings host user known)
    (held : pool.held client = some object) (now : Int) :
    ((pool.checkin settings object now).hold client none).Keeps settings host user known := by
  have sound := keeps.sound.checkin held now
  have rest {other : κ} {it : EpDescr} (apart : other ≠ user) (inside : it ∈ pool.busy)
      (holds : Function.update pool.held client none other = some it.node) : it.ep ≠ host := by
    by_cases itself : other = client
    · simp [itself] at holds
    · exact keeps.others other apart it inside (by simpa [itself] using holds)
  obtain ⟨it, inside, rfl, ⟨-, eq⟩ | ⟨-, eq⟩⟩ := checkin_cases settings now (keeps.sound.busy client object held)
  · rw [eq] at sound ⊢
    refine ⟨sound, fun entry member same => ?_, fun other apart entry member holds => ?_⟩
    · refine keeps.stock entry ?_ same
      exact (List.erase_sublist.append_left _).subset member
    · exact rest apart (List.mem_of_mem_erase member) holds
  · rw [eq] at sound ⊢
    refine ⟨sound, fun entry member same => ?_, fun other apart entry member holds => ?_⟩
    · rcases List.mem_append.mp member with member | member
      · rcases List.mem_cons.mp member with rfl | member
        · exact keeps.stock it (List.mem_append_right _ inside) same
        · exact keeps.stock entry (List.mem_append_left _ member) same
      · exact keeps.stock entry (List.mem_append_right _ (List.mem_of_mem_erase member)) same
    · exact rest apart (List.mem_of_mem_erase member) holds

theorem Keeps.step {event : PoolEvent κ} (keeps : pool.Keeps settings host user known)
    (fits : event.Fits host user known) (stepped : pool.step settings event = some after) :
    after.Keeps settings host user known := by
  cases event with
  | checkout client asked => exact Option.some.inj stepped ▸ keeps.checkout fits
  | assign client socket =>
      obtain ⟨object, held, rfl⟩ := Option.map_eq_some_iff.mp stepped
      exact keeps.assign held fits
  | checkin client now =>
      obtain ⟨object, held, rfl⟩ := Option.map_eq_some_iff.mp stepped
      exact keeps.checkin held now
  | sweep now =>
      have kept : (pool.sweep now).entries.Sublist pool.entries := List.filter_sublist.append_right _
      exact Option.some.inj stepped ▸ ⟨keeps.sound.sweep now, fun it inside => keeps.stock it (kept.subset inside),
        keeps.others⟩

end Pool

end FullnodeClient.Net
