import FullnodeClient.Lib.Log
import FullnodeClient.Net.Address
import FullnodeClient.Tx.Amounts

/-!
# The search for the best hosts

`parse_record`, `get_ip_addresses` and `lookup_best_ip` of `nslookup.cpp`, with the start in `main.cpp`. The
address of a torrent or a proxy in the settings is a name; the hosts behind it are the records of the name
server, each timed with a request of its own, and the search goes on for as long as the program runs.
-/

namespace FullnodeClient.Net
open FullnodeClient.Lib FullnodeClient.Text FullnodeClient.Rpc

/-- Scheme, server and port at the beginning of `get_ip_addresses`, which throws where `std::stoi` does. -/
def splitAddress (address : Bytes) : Option (Bytes × Bytes × Int) :=
  let (scheme, server) := match search (text "://") address with
    | some pos => (address.take (pos + 3), address.drop (pos + 3))
    | none => ([], address)
  match search (text ":") server with
  | some pos => (Reader.stoi (server.drop (pos + 1))).map fun port => (scheme, server.take pos, port)
  | none => some (scheme, server, 0)

/-- A name in the settings. With one that does not split, `main` throws before the search begins. -/
structure Name where
  address : Bytes
  scheme : Bytes
  server : Bytes
  port : Int
  split : splitAddress address = some (scheme, server, port)

def Name.serv (name : Name) (r : Bytes) : Bytes :=
  name.scheme ++ r ++ if name.port ≠ 0 then text ":" ++ intToString name.port else []

/-- A record of an answer, with a name as `ns_name_ntop` writes it. -/
inductive Record
  | mx (pref : UInt16) (name : Bytes)
  | a (b₀ b₁ b₂ b₃ : UInt8)
  | ns (name : Bytes)
  | other
deriving DecidableEq

def parseRecord : Record → Bytes
  | .mx pref name => decimal pref.toNat ++ text " " ++ name
  | .a b₀ b₁ b₂ b₃ => (text ".").intercalate [decimal b₀.toNat, decimal b₁.toNat, decimal b₂.toNat, decimal b₃.toNat]
  | .ns name => name
  | .other => text "unhandled record"

structure NsResult where
  server : Bytes
  timeout : Nat
deriving DecidableEq

structure Config where
  tor : Name
  proxy : Name
  validateIpAddress : Bytes → Bool
  parse : Bytes → Except (Nat × Bytes) Json

structure Look where
  /-- The answer of the name server, if it gives one, and how long the request to each host takes, if it succeeds. -/
  records : Option (List (Record × Option Nat))
  /-- What `std::sort` leaves, and what the hosts say to `get-count-blocks`, if they are asked. -/
  answers : List (NsResult × Bytes)

/-- `get_ip_addresses` up to `std::sort`, which throws where it is `none`. -/
def getIpAddresses (config : Config) (name : Name) (look : Look) : Option (List NsResult) :=
  if config.validateIpAddress name.server then some [⟨name.serv name.server, 0⟩]
  else look.records.map fun result => result.map fun r => ⟨name.serv (parseRecord r.1), r.2.getD 999000⟩

def Sorted (ip : List NsResult) : Prop := ip.Pairwise fun first second => first.timeout ≤ second.timeout

instance (ip : List NsResult) : Decidable (Sorted ip) := inferInstanceAs (Decidable (List.Pairwise _ ip))

namespace Look

variable (config : Config) (name : Name) (look : Look)

-- The order is not stable, so it is not determined by the times.
def Ordered : Prop :=
  ∀ ip ∈ getIpAddresses config name look, (look.answers.map Prod.fst).Perm ip ∧ Sorted (look.answers.map Prod.fst)

instance : Decidable (look.Ordered config name) := by
  unfold Ordered
  infer_instance

def list : Option (List (NsResult × Bytes)) := (getIpAddresses config name look).map fun _ => look.answers

end Look

/-! ## The search -/

section

variable (config : Config)

/-- `blocks_count` of an answer to `get-count-blocks`. -/
def blocksCount (body : Bytes) : Nat :=
  if body = [] then 0
  else
    match config.parse body with
    | .error _ => 0
    | .ok doc =>
        match (doc.get (text "result")).bind (Json.get (text "count_blocks")) with
        | some (.int n) => if 0 ≤ n ∧ n < 2 ^ 32 then n.toNat else 0
        | _ => 0

/-- The slow hosts are not asked. -/
def count (i : NsResult × Bytes) : Nat := if i.1.timeout ≥ 2000 then 0 else blocksCount config i.2

def maxBlocks (tors : List (NsResult × Bytes)) : Nat := tors.foldl (fun most i => max most (count config i)) 0

def choose (tors : List (NsResult × Bytes)) : Option NsResult :=
  let most := maxBlocks config tors
  let most := if most > 9 then most - 10 else most
  (tors.find? fun i => count config i > most).map Prod.fst

@[ext]
structure Servers where
  tor : Bytes
  proxy : Bytes
deriving DecidableEq

structure Lookup where
  /-- The variables `tor` and `proxy` of `lookup_best_ip`. -/
  known : Servers
  /-- `settings::server`, which the handlers read. -/
  settings : Servers
  stopped : Bool
deriving DecidableEq

namespace Lookup

def useTor (s : Lookup) (it : NsResult) : Lookup :=
  if s.known.tor ≠ it.server then
    { s with known.tor := it.server, settings.tor := it.server }
  else s

def useProxy (s : Lookup) (it : NsResult) : Lookup :=
  if s.known.proxy ≠ it.server then
    { s with known.proxy := it.server, settings.proxy := it.server }
  else s

end Lookup

structure Round where
  tors : Look
  prxs : Option Look

namespace Round

def Ordered (r : Round) : Prop := r.tors.Ordered config config.tor ∧ ∀ prxs ∈ r.prxs, prxs.Ordered config config.proxy

instance (r : Round) : Decidable (r.Ordered config) := by
  unfold Ordered
  infer_instance

end Round

namespace Lookup

def start (tors prxs : Look) : Option Lookup := do
  let tor ← (← tors.list config config.tor).head?
  let proxy ← (← prxs.list config config.proxy).head?
  let servers : Servers := ⟨tor.1.server, proxy.1.server⟩
  return ⟨servers, servers, false⟩

def lookProxy (s : Lookup) : Option Look → Lookup
  | none => { s with stopped := true }
  | some look =>
      match look.list config config.proxy with
      | some (i :: _) => s.useProxy i.1
      | _ => s

def step (s : Lookup) (r : Round) : Option Lookup :=
  if s.stopped then none
  else
    match r.tors.list config config.tor with
    | none => some s
    | some tors => some (((choose config tors).elim s s.useTor).lookProxy config r.prxs)

end Lookup

end

section

variable {config : Config} {tors : List (NsResult × Bytes)}

theorem maxBlocks_le_iff {n : Nat} : maxBlocks config tors ≤ n ↔ ∀ i ∈ tors, count config i ≤ n := by
  have fold (most : Nat) : tors.foldl (fun most i => max most (count config i)) most ≤ n ↔
      most ≤ n ∧ ∀ i ∈ tors, count config i ≤ n := by
    induction tors generalizing most with
    | nil => simp
    | cons i tors ih => simp [ih, and_assoc]
  simp [maxBlocks, fold]

theorem count_le_maxBlocks {i : NsResult × Bytes} (inside : i ∈ tors) : count config i ≤ maxBlocks config tors :=
  maxBlocks_le_iff.mp le_rfl i inside

theorem lt_maxBlocks_iff {n : Nat} : n < maxBlocks config tors ↔ ∃ i ∈ tors, n < count config i := by
  rw [← not_le, maxBlocks_le_iff]
  simp

/-- With fewer than ten blocks nowhere is a host chosen, since no count is above the greatest one. -/
theorem choose_eq_none_iff : choose config tors = none ↔ ∀ i ∈ tors, count config i < 10 := by
  have few : (∀ i ∈ tors, count config i < 10) ↔ maxBlocks config tors ≤ 9 := by
    rw [maxBlocks_le_iff]
    simp only [Nat.lt_succ_iff]
  rw [few, choose, Option.map_eq_none_iff, List.find?_eq_none]
  simp only [gt_iff_lt, decide_eq_true_eq, not_lt]
  constructor
  · intro behind
    by_contra many
    rw [if_pos (not_le.mp many), ← maxBlocks_le_iff] at behind
    omega
  · intro few i inside
    rw [if_neg (by omega)]
    exact count_le_maxBlocks inside

theorem choose_eq_some {it : NsResult} (sorted : Sorted (tors.map Prod.fst)) (chosen : choose config tors = some it) :
    ∃ body, (it, body) ∈ tors ∧ it.timeout < 2000 ∧
      (∀ i ∈ tors, count config i < blocksCount config body + 10) ∧
      ∀ i ∈ tors, i.1.timeout < it.timeout → ∃ j ∈ tors, count config i + 10 ≤ count config j := by
  have reached : 10 ≤ maxBlocks config tors := by
    have enough : ¬∀ i ∈ tors, count config i < 10 := by
      rw [← choose_eq_none_iff, chosen]
      exact Option.some_ne_none it
    obtain ⟨i, inside, enough⟩ : ∃ i ∈ tors, 10 ≤ count config i := by simpa using enough
    exact enough.trans (count_le_maxBlocks inside)
  rw [choose, if_pos (by omega : maxBlocks config tors > 9)] at chosen
  obtain ⟨⟨it, body⟩, found, rfl⟩ := Option.map_eq_some_iff.mp chosen
  obtain ⟨close, faster, slower, whole, behind⟩ := List.find?_eq_some_iff_append.mp found
  simp only [gt_iff_lt, decide_eq_true_eq, Bool.not_eq_true', decide_eq_false_iff_not, not_lt] at close behind
  have quick : it.timeout < 2000 := by
    by_contra slow
    rw [count, if_pos (not_lt.mp slow)] at close
    omega
  rw [count, if_neg (not_le.mpr quick)] at close
  change maxBlocks config tors - 10 < blocksCount config body at close
  refine ⟨body, by rw [whole]; simp, quick, fun i inside => ?_, fun i inside first => ?_⟩
  · have most : count config i ≤ maxBlocks config tors := count_le_maxBlocks inside
    omega
  · -- sorted by the times, a faster host is before the chosen one
    have early : i ∈ faster := by
      rw [whole, Sorted, List.map_append, List.pairwise_append, List.map_cons, List.pairwise_cons] at sorted
      rw [whole, List.mem_append, List.mem_cons] at inside
      rcases inside with early | rfl | late
      · exact early
      · exact absurd first (lt_irrefl _)
      · exact absurd (sorted.2.1.1 i.1 (List.mem_map_of_mem late)) (not_le.mpr first)
    have far := behind i early
    obtain ⟨j, there, most⟩ := lt_maxBlocks_iff.mp (by omega : count config i + 9 < maxBlocks config tors)
    exact ⟨j, there, most⟩

end

namespace Round

variable (config : Config)

def chosenTor (r : Round) : Option NsResult := (r.tors.list config config.tor).bind (choose config)

def firstProxy (r : Round) : Option NsResult :=
  (r.tors.list config config.tor).bind fun _ =>
    r.prxs.bind fun prxs => (prxs.list config config.proxy).bind fun ip => ip.head?.map Prod.fst

def servers (servers : Servers) (r : Round) : Servers where
  tor := (r.chosenTor config).elim servers.tor NsResult.server
  proxy := (r.firstProxy config).elim servers.proxy NsResult.server

end Round

namespace Lookup

variable {config : Config} {s s' : Lookup} {r : Round}

def Agrees (s : Lookup) (servers : Servers) : Prop := s.known = servers ∧ s.settings = servers

theorem Agrees.useTor {servers : Servers} (agrees : s.Agrees servers) (it : NsResult) :
    (s.useTor it).Agrees { servers with tor := it.server } := by
  obtain ⟨rfl, same⟩ := agrees
  unfold Lookup.useTor
  split
  case isTrue => exact ⟨rfl, by rw [same]⟩
  case isFalse kept =>
    rw [← not_not.mp kept]
    exact ⟨rfl, same⟩

theorem Agrees.useProxy {servers : Servers} (agrees : s.Agrees servers) (it : NsResult) :
    (s.useProxy it).Agrees { servers with proxy := it.server } := by
  obtain ⟨rfl, same⟩ := agrees
  unfold Lookup.useProxy
  split
  case isTrue => exact ⟨rfl, by rw [same]⟩
  case isFalse kept =>
    rw [← not_not.mp kept]
    exact ⟨rfl, same⟩

theorem Agrees.lookProxy {servers : Servers} (agrees : s.Agrees servers) (prxs : Option Look) :
    (s.lookProxy config prxs).Agrees
      { servers with
        proxy := (prxs.bind fun prxs => (prxs.list config config.proxy).bind fun ip =>
          ip.head?.map Prod.fst).elim servers.proxy NsResult.server } := by
  cases prxs with
  | none => exact agrees
  | some look =>
      rw [Option.bind_some, Lookup.lookProxy]
      rcases look.list config config.proxy with none | ip
      · exact agrees
      · cases ip with
        | nil => exact agrees
        | cons i ip => exact agrees.useProxy i.1

theorem Agrees.step {servers : Servers} (agrees : s.Agrees servers) (h : s.step config r = some s') :
    s'.Agrees (r.servers config servers) := by
  unfold Lookup.step at h
  split at h
  case isTrue => cases h
  case isFalse =>
    unfold Round.servers Round.chosenTor Round.firstProxy
    cases listed : r.tors.list config config.tor with
    | none =>
        rw [listed] at h
        cases h
        exact agrees
    | some tors =>
        rw [listed] at h
        cases h
        rw [Option.bind_some, Option.bind_some]
        cases choose config tors with
        | none => exact agrees.lookProxy r.prxs
        | some it => exact (agrees.useTor it).lookProxy r.prxs

theorem Agrees.run {servers : Servers} {rounds : List Round} (agrees : s.Agrees servers)
    (ran : runAllowed (Lookup.step config) (fun _ r => r.Ordered config) s rounds = some s') :
    s'.Agrees (rounds.foldl (Round.servers config) servers) := by
  induction rounds generalizing s servers with
  | nil =>
      cases ran
      exact agrees
  | cons r rounds ih =>
      simp only [runAllowed, Option.ite_none_right_eq_some, Option.bind_eq_some_iff] at ran
      obtain ⟨-, next, moved, ran⟩ := ran
      exact ih (agrees.step moved) ran

theorem run_ordered {rounds : List Round}
    (ran : runAllowed (Lookup.step config) (fun _ r => r.Ordered config) s rounds = some s') :
    ∀ r ∈ rounds, r.Ordered config := by
  induction rounds generalizing s with
  | nil => exact fun r inside => absurd inside List.not_mem_nil
  | cons r rounds ih =>
      simp only [runAllowed, Option.ite_none_right_eq_some, Option.bind_eq_some_iff] at ran
      obtain ⟨ordered, next, -, ran⟩ := ran
      exact List.forall_mem_cons.mpr ⟨ordered, ih ran⟩

theorem start_agrees {tors prxs : Look} (started : start config tors prxs = some s) : s.Agrees s.settings := by
  simp only [start, bind, Option.bind_eq_some_iff, pure, Option.some.injEq] at started
  obtain ⟨_, -, _, -, _, -, _, -, rfl⟩ := started
  exact ⟨rfl, rfl⟩

theorem foldl_servers (rounds : List Round) (servers : Servers) :
    rounds.foldl (Round.servers config) servers =
      { tor := (rounds.filterMap (Round.chosenTor config)).getLast?.elim servers.tor NsResult.server
        proxy := (rounds.filterMap (Round.firstProxy config)).getLast?.elim servers.proxy NsResult.server } := by
  rw [← foldl_elim, ← foldl_elim]
  exact Servers.ext_iff.mpr ⟨(List.foldl_hom Servers.tor fun _ _ => rfl).symm,
    (List.foldl_hom Servers.proxy fun _ _ => rfl).symm⟩

theorem lookup_uses_last_choice (config : Config) (tors prxs : Look) (first s : Lookup) (rounds : List Round)
    (started : start config tors prxs = some first)
    (ran : runAllowed (step config) (fun _ r => r.Ordered config) first rounds = some s) :
    s.known = s.settings ∧
      s.settings.tor = (rounds.filterMap (Round.chosenTor config)).getLast?.elim first.settings.tor NsResult.server ∧
      s.settings.proxy =
        (rounds.filterMap (Round.firstProxy config)).getLast?.elim first.settings.proxy NsResult.server ∧
      ∀ r ∈ rounds, ∀ answers, r.tors.list config config.tor = some answers →
        (r.chosenTor config = none ↔ ∀ i ∈ answers, count config i < 10) ∧
          ∀ it, r.chosenTor config = some it → ∃ body, (it, body) ∈ answers ∧ it.timeout < 2000 ∧
            (∀ i ∈ answers, count config i < blocksCount config body + 10) ∧
            ∀ i ∈ answers, i.1.timeout < it.timeout → ∃ j ∈ answers, count config i + 10 ≤ count config j := by
  obtain ⟨known, settings⟩ := (start_agrees started).run ran
  rw [foldl_servers] at known settings
  refine ⟨known.trans settings.symm, congrArg Servers.tor settings, congrArg Servers.proxy settings, ?_⟩
  intro r inside answers listed
  have chosen : r.chosenTor config = choose config answers := by rw [Round.chosenTor, listed, Option.bind_some]
  have sorted : Sorted (answers.map Prod.fst) := by
    obtain ⟨ip, found, rfl⟩ := Option.map_eq_some_iff.mp listed
    exact ((run_ordered ran r inside).1 ip found).2
  rw [chosen]
  exact ⟨choose_eq_none_iff, fun it => choose_eq_some sorted⟩

namespace Sample

def torrents : Name where
  address := text "tor.net-main.metahashnetwork.com:5795"
  scheme := []
  server := text "tor.net-main.metahashnetwork.com"
  port := 5795
  split := by decide +kernel

def gate : Name := ⟨text "https://10.0.0.1", text "https://", text "10.0.0.1", 0, by decide +kernel⟩

def names : Config where
  tor := torrents
  proxy := gate
  validateIpAddress s := s = text "10.0.0.1"
  parse := readPlain

def host (r : Bytes) (timeout : Nat) (body : Bytes) : NsResult × Bytes := (⟨torrents.serv r, timeout⟩, body)

def blocks (n : Nat) : Bytes :=
  writePlain (.obj [(text "id", .int 1), (text "result", .obj [(text "count_blocks", .int n)])])

def lagging : Look where
  records := some [(.other, none), (.a 1 1 1 1, some 40), (.a 2 2 2 2, some 10)]
  answers := [host (text "2.2.2.2") 10 (blocks 19), host (text "1.1.1.1") 40 (blocks 30),
    host (text "unhandled record") 999000 []]

def gates : Look := ⟨none, [(⟨gate.serv (text "10.0.0.1"), 0⟩, [])]⟩

def rounds : List Round := [⟨lagging, some gates⟩, ⟨⟨none, []⟩, some gates⟩, ⟨lagging, none⟩]

def servers (tor : Bytes) : Servers := ⟨torrents.serv tor, text "https://10.0.0.1"⟩

def begun : Lookup := ⟨servers (text "2.2.2.2"), servers (text "2.2.2.2"), false⟩

def ended : Lookup := ⟨servers (text "1.1.1.1"), servers (text "1.1.1.1"), true⟩

theorem started : start names lagging gates = some begun := by decide +kernel

theorem ran : runAllowed (step names) (fun _ r => r.Ordered names) begun rounds = some ended := by decide +kernel

end Sample

theorem lookup_leaves_lagging_host :
    Sample.ended.settings.tor = text "1.1.1.1:5795" ∧
      ∃ body, (⟨Sample.ended.settings.tor, 40⟩, body) ∈ Sample.lagging.answers ∧
        ∀ i ∈ Sample.lagging.answers, count Sample.names i < blocksCount Sample.names body + 10 := by
  obtain ⟨-, tor, -, choices⟩ :=
    lookup_uses_last_choice Sample.names Sample.lagging Sample.gates Sample.begun Sample.ended Sample.rounds
      Sample.started Sample.ran
  obtain ⟨body, inside, -, close, -⟩ :=
    (choices _ List.mem_cons_self Sample.lagging.answers (by decide +kernel)).2
      (Sample.host (text "1.1.1.1") 40 []).1 (by decide +kernel)
  exact ⟨tor.trans (by decide +kernel), body, inside, close⟩

end Lookup

/-! ## The addresses in use -/

theorem stoi_digits {s : Bytes} (some : s ≠ []) (digits : ∀ c ∈ s, isDigit c = true) :
    Reader.stoi s = if digitsValue s < 2 ^ 31 then .some (digitsValue s : Int) else none := by
  obtain ⟨c, rest, rfl⟩ := List.exists_cons_of_ne_nil some
  have digit := digits c List.mem_cons_self
  obtain ⟨-, visible, minus, plus⟩ := Tx.isDigit_facts digit
  have front : (c :: rest).dropWhile isSpace = c :: rest := by rw [List.dropWhile_cons_of_neg (by simp [visible])]
  simp [Reader.stoi, Tx.cStr_digits digits, front, digit, minus, plus]

structure Endpoint where
  secure : Option Bool
  host : Bytes
  port : Option Bytes
  noSlash : 47 ∉ host
  noColon : 58 ∉ host
  decimal : ∀ digits ∈ port, digits ≠ [] ∧ ∀ c ∈ digits, isDigit c = true

namespace Endpoint

variable (e : Endpoint)

def upstream : Upstream :=
  ⟨e.secure.getD false, e.host, e.port, [], e.noSlash, e.noColon, e.decimal, .inl rfl⟩

def scheme : Bytes :=
  match e.secure with
  | none => []
  | some false => text "http://"
  | some true => text "https://"

def defaultPort : Bytes :=
  match e.secure with
  | none => []
  | some false => text "80"
  | some true => text "443"

def address : Bytes := e.scheme ++ e.upstream.front

def number : Nat := e.port.elim 0 digitsValue

theorem front_eq : e.upstream.front = e.host ++ e.port.elim [] fun digits => 58 :: digits := rfl

theorem address_of_scheme {secure : Bool} (given : e.secure = some secure) : e.address = e.upstream.address := by
  rw [address, Upstream.address, scheme, given]
  cases secure <;> simp [upstream, given]

theorem not_infix_front {word : Bytes} (slash : 47 ∈ word) : ¬(search word e.upstream.front).isSome = true := by
  rw [search_isSome_iff]
  exact fun occurs => e.upstream.slash_notMem_front (occurs.subset slash)

theorem parse_address : parseAddress e.address ⟨[], [], [], false⟩ =
    ⟨e.host, e.port.getD e.defaultPort, [], e.secure.getD false⟩ := by
  cases given : e.secure with
  | none =>
      have stripped : (Scan.mk e.address ⟨[], [], [], false⟩).http.https = ⟨e.upstream.front, ⟨[], [], [], false⟩⟩ := by
        rw [address, scheme, given, List.nil_append, Scan.http, if_neg (e.not_infix_front (by decide)), Scan.https,
          if_neg (e.not_infix_front (by decide))]
      have cut := e.upstream.cut_front [] ⟨[], [], [], false⟩
      rw [show e.upstream.path = [] from rfl, List.append_nil] at cut
      rw [parseAddress, stripped, cut, defaultPort, given]
      rfl
  | some secure =>
      rw [e.address_of_scheme given]
      have here : e.upstream.secure = secure := by simp [upstream, given]
      have whole : e.upstream.parsed = ⟨e.host, e.port.getD e.defaultPort, [], secure⟩ := by
        rw [Upstream.parsed, here, defaultPort, given]
        cases secure <;> rfl
      have bare : ¬ text "http://" <:+: [] ∧ ¬ text "https://" <:+: [] := by decide
      rw [Option.getD_some, ← whole]
      cases secure with
      | true => exact (Upstream.parse_https here _).mpr ⟨bare.1, fun _ => rfl⟩
      | false => exact (Upstream.parse_http here _).mpr ⟨bare.2, rfl, fun _ => rfl⟩

theorem splitAddress_eq : splitAddress e.address =
    e.port.elim (some (e.scheme, e.host, 0)) fun digits =>
      (Reader.stoi digits).map fun port => (e.scheme, e.host, port) := by
  have cut : splitAddress e.address =
      match search (text ":") e.upstream.front with
      | some pos => (Reader.stoi (e.upstream.front.drop (pos + 1))).map fun port =>
          (e.scheme, e.upstream.front.take pos, port)
      | none => some (e.scheme, e.upstream.front, 0) := by
    have plain (rest : Bytes) : search (text "://") (text "http://" ++ rest) = some 4 := by
      simp [search, text]
    have secure (rest : Bytes) : search (text "://") (text "https://" ++ rest) = some 5 := by
      simp [search, text]
    have nowhere : search (text "://") e.upstream.front = none :=
      Option.not_isSome_iff_eq_none.mp (e.not_infix_front (by decide))
    unfold splitAddress address scheme
    rcases e.secure with _ | _ | _
    · simp only [List.nil_append, nowhere]
    · simp only [plain]
      rfl
    · simp only [secure]
      rfl
  rw [cut, front_eq]
  cases e.port with
  | none =>
      have nowhere : search (text ":") e.host = none := search_eq_none e.noColon
      simp [nowhere]
  | some digits =>
      have there : search (text ":") (e.host ++ 58 :: digits) = some e.host.length := search_append e.noColon digits
      simp [there]

variable {e}

theorem split_eq {scheme server : Bytes} {port : Int} (split : splitAddress e.address = some (scheme, server, port)) :
    scheme = e.scheme ∧ server = e.host ∧ port = e.number := by
  rw [splitAddress_eq] at split
  unfold number
  cases given : e.port with
  | none =>
      rw [given] at split
      cases split
      exact ⟨rfl, rfl, rfl⟩
  | some digits =>
      obtain ⟨some, digit⟩ := e.decimal digits given
      rw [given, Option.elim_some, stoi_digits some digit] at split
      split at split
      case isTrue =>
        cases split
        exact ⟨rfl, rfl, rfl⟩
      case isFalse => cases split

def moved (e : Endpoint) (r : Bytes) (noSlash : 47 ∉ r) (noColon : 58 ∉ r) : Endpoint where
  secure := e.secure
  host := r
  port := if e.number = 0 then none else some (Lib.decimal e.number)
  noSlash := noSlash
  noColon := noColon
  decimal digits given := by
    split at given
    case isTrue => cases given
    case isFalse =>
      cases given
      exact ⟨decimal_ne_nil _, fun c => isDigit_of_mem_decimal⟩

theorem serv_eq {name : Name} (named : name.address = e.address) {r : Bytes} (noSlash : 47 ∉ r) (noColon : 58 ∉ r) :
    name.serv r = (e.moved r noSlash noColon).address := by
  have split := name.split
  rw [named] at split
  obtain ⟨scheme, -, port⟩ := split_eq split
  have digits : intToString e.number = Lib.decimal e.number := by
    rw [intToString, if_neg (by omega), Int.natAbs_natCast]
  rw [Name.serv, scheme, port, digits, address, front_eq]
  by_cases zero : e.number = 0
  · simp [moved, zero, Endpoint.scheme]
  · simp [moved, zero, Endpoint.scheme, text]

end Endpoint

def Look.Hosts (config : Config) (name : Name) (look : Look) (r : Bytes) : Prop :=
  if config.validateIpAddress name.server then r = name.server
  else ∃ records ∈ look.records, ∃ record ∈ records.map Prod.fst, r = parseRecord record

def Leads (config : Config) (name : Name) (e : Endpoint) (looks : List Look) (address : Bytes) : Prop :=
  ∃ look ∈ looks, ∃ r, look.Hosts config name r ∧
    parseAddress address ⟨[], [], [], false⟩ =
      ⟨r, if e.number = 0 then e.defaultPort else decimal e.number, [], e.secure.getD false⟩

def Record.Plain : Record → Prop
  | .mx _ name | .ns name => 47 ∉ name ∧ 58 ∉ name
  | .a _ _ _ _ | .other => True

instance : (record : Record) → Decidable record.Plain
  | .mx _ _ | .ns _ => inferInstanceAs (Decidable (_ ∧ _))
  | .a _ _ _ _ | .other => instDecidableTrue

def Look.Plain (look : Look) : Prop := ∀ records ∈ look.records, ∀ r ∈ records, r.1.Plain

theorem not_mem_decimal {c : UInt8} (other : isDigit c = false) (n : Nat) : c ∉ decimal n := by
  intro inside
  rw [isDigit_of_mem_decimal inside] at other
  cases other

theorem Record.Plain.parseRecord {record : Record} (plain : record.Plain) :
    47 ∉ parseRecord record ∧ 58 ∉ parseRecord record := by
  have slash := not_mem_decimal (show isDigit 47 = false by decide)
  have colon := not_mem_decimal (show isDigit 58 = false by decide)
  cases record with
  | mx pref name => simp [Net.parseRecord, slash, colon, plain.1, plain.2, text]
  | a b₀ b₁ b₂ b₃ => simp [Net.parseRecord, List.intercalate, List.intersperse, slash, colon, text]
  | ns name => exact plain
  | other => decide

section

variable {config : Config} {name : Name} {e : Endpoint} {look : Look} {i : NsResult × Bytes}

theorem Look.server_eq {answers : List (NsResult × Bytes)} (ordered : look.Ordered config name)
    (listed : look.list config name = some answers) (inside : i ∈ answers) :
    ∃ r, look.Hosts config name r ∧ i.1.server = name.serv r := by
  obtain ⟨ip, found, rfl⟩ := Option.map_eq_some_iff.mp listed
  have there : i.1 ∈ ip := (ordered ip found).1.subset (List.mem_map_of_mem inside)
  unfold getIpAddresses at found
  split at found
  case isTrue own =>
    cases found
    exact ⟨name.server, (if_pos own).mpr rfl, by rw [List.mem_singleton.mp there]⟩
  case isFalse other =>
    obtain ⟨records, known, rfl⟩ := Option.map_eq_some_iff.mp found
    obtain ⟨r, member, same⟩ := List.mem_map.mp there
    exact ⟨_, (if_neg other).mpr ⟨records, known, r.1, List.mem_map_of_mem member, rfl⟩, by rw [← same]⟩

theorem Look.leads {answers : List (NsResult × Bytes)} {looks : List Look} (named : name.address = e.address)
    (plain : ∀ look ∈ looks, look.Plain) (ordered : look.Ordered config name) (here : look ∈ looks)
    (listed : look.list config name = some answers) (inside : i ∈ answers) :
    Leads config name e looks i.1.server := by
  obtain ⟨r, hosts, server⟩ := Look.server_eq ordered listed inside
  obtain ⟨noSlash, noColon⟩ : 47 ∉ r ∧ 58 ∉ r := by
    unfold Look.Hosts at hosts
    split at hosts
    case isTrue =>
      have split := name.split
      rw [named] at split
      rw [hosts, (Endpoint.split_eq split).2.1]
      exact ⟨e.noSlash, e.noColon⟩
    case isFalse =>
      obtain ⟨records, known, record, listed, rfl⟩ := hosts
      obtain ⟨entry, member, rfl⟩ := List.mem_map.mp listed
      exact (plain look here records known entry member).parseRecord
  refine ⟨look, here, r, hosts, ?_⟩
  rw [server, Endpoint.serv_eq named noSlash noColon, Endpoint.parse_address]
  by_cases zero : e.number = 0 <;> simp [Endpoint.moved, Endpoint.defaultPort, zero]

end

namespace Lookup

variable {config : Config}

theorem start_leads {tors prxs : Look} {first : Lookup} (started : start config tors prxs = some first) :
    (∃ answers i, tors.list config config.tor = some answers ∧ i ∈ answers ∧ first.settings.tor = i.1.server) ∧
      ∃ answers i, prxs.list config config.proxy = some answers ∧ i ∈ answers ∧ first.settings.proxy = i.1.server := by
  simp only [start, bind, Option.bind_eq_some_iff, pure, Option.some.injEq] at started
  obtain ⟨answers, listed, i, head, others, listed', j, head', rfl⟩ := started
  exact ⟨⟨answers, i, listed, List.mem_of_head? head, rfl⟩, ⟨others, j, listed', List.mem_of_head? head', rfl⟩⟩

theorem lookup_reaches_named_hosts (config : Config) (tor proxy : Endpoint) (torNamed : config.tor.address = tor.address)
    (proxyNamed : config.proxy.address = proxy.address) (tors prxs : Look) (first s : Lookup) (rounds : List Round)
    (ordered : (Round.mk tors (some prxs)).Ordered config)
    (plain : ∀ look ∈ tors :: rounds.map Round.tors ++ prxs :: rounds.filterMap Round.prxs, look.Plain)
    (started : start config tors prxs = some first)
    (ran : runAllowed (step config) (fun _ r => r.Ordered config) first rounds = some s) :
    Leads config config.tor tor (tors :: rounds.map Round.tors) s.settings.tor ∧
      Leads config config.proxy proxy (prxs :: rounds.filterMap Round.prxs) s.settings.proxy := by
  obtain ⟨-, settings⟩ := (start_agrees started).run ran
  obtain ⟨⟨answers, i, listed, inside, torFirst⟩, ⟨answers', j, listed', inside', proxyFirst⟩⟩ := start_leads started
  have plainTors : ∀ look ∈ tors :: rounds.map Round.tors, look.Plain :=
    fun look here => plain look (List.mem_append_left _ here)
  have plainPrxs : ∀ look ∈ prxs :: rounds.filterMap Round.prxs, look.Plain :=
    fun look here => plain look (List.mem_append_right _ here)
  rw [settings, foldl_servers]
  constructor
  · refine elim_getLast_of_forall ?_ fun r member it chosen => ?_
    · rw [torFirst]
      exact Look.leads torNamed plainTors ordered.1 List.mem_cons_self listed inside
    · obtain ⟨answers, listed, chosen⟩ := Option.bind_eq_some_iff.mp chosen
      obtain ⟨i, found, rfl⟩ := Option.map_eq_some_iff.mp chosen
      exact Look.leads torNamed plainTors (run_ordered ran r member).1
        (List.mem_cons_of_mem _ (List.mem_map_of_mem member)) listed (List.mem_of_find?_eq_some found)
  · refine elim_getLast_of_forall ?_ fun r member it chosen => ?_
    · rw [proxyFirst]
      exact Look.leads proxyNamed plainPrxs (ordered.2 prxs rfl) List.mem_cons_self listed' inside'
    · obtain ⟨-, -, chosen⟩ := Option.bind_eq_some_iff.mp chosen
      obtain ⟨look, looked, chosen⟩ := Option.bind_eq_some_iff.mp chosen
      obtain ⟨answers, listed, chosen⟩ := Option.bind_eq_some_iff.mp chosen
      obtain ⟨i, head, rfl⟩ := Option.map_eq_some_iff.mp chosen
      exact Look.leads proxyNamed plainPrxs ((run_ordered ran r member).2 look looked)
        (List.mem_cons_of_mem _ (List.mem_filterMap.mpr ⟨r, member, looked⟩)) listed (List.mem_of_head? head)

def Sample.tor : Endpoint where
  secure := none
  host := text "tor.net-main.metahashnetwork.com"
  port := some (text "5795")
  noSlash := by decide
  noColon := by decide
  decimal := by decide +kernel

def Sample.proxy : Endpoint where
  secure := some true
  host := text "10.0.0.1"
  port := none
  noSlash := by decide
  noColon := by decide
  decimal := by decide

theorem lookup_reaches_other_host :
    Leads Sample.names Sample.torrents Sample.tor (Sample.lagging :: Sample.rounds.map Round.tors)
        (text "1.1.1.1:5795") ∧
      Leads Sample.names Sample.gate Sample.proxy (Sample.gates :: Sample.rounds.filterMap Round.prxs)
        (text "https://10.0.0.1") := by
  have plain : ∀ look ∈ Sample.lagging :: Sample.rounds.map Round.tors ++
      Sample.gates :: Sample.rounds.filterMap Round.prxs, look.Plain := by
    unfold Look.Plain
    decide +kernel
  exact lookup_reaches_named_hosts Sample.names Sample.tor Sample.proxy (by decide +kernel) (by decide +kernel)
    Sample.lagging Sample.gates Sample.begun Sample.ended Sample.rounds (by decide +kernel) plain
    Sample.started Sample.ran

end Lookup

end FullnodeClient.Net
