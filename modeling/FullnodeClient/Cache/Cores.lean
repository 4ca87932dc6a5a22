import FullnodeClient.Cache.Block

/-!
# Signatures of the cores

What the two overloads of `core_addr_verification` accept.
-/

namespace FullnodeClient.Cache
open FullnodeClient.Lib FullnodeClient.Text

theorem cons_subperm_iff_erase {α : Type} [BEq α] [LawfulBEq α] {a : α} {l m : List α} :
    (a :: l).Subperm m ↔ a ∈ m ∧ l.Subperm (m.erase a) := by
  constructor
  · intro covered
    have inside : a ∈ m := covered.subset List.mem_cons_self
    exact ⟨inside, (List.subperm_cons a).mp ((List.perm_cons_erase inside).subperm_left.mp covered)⟩
  · rintro ⟨inside, covered⟩
    exact (List.perm_cons_erase inside).subperm_left.mpr ((List.subperm_cons a).mpr covered)

abbrev sender (lib : TorrentLib) (address : Bytes) : Bytes := (lib.calcHexString address).map lowerCase

def signTxs (txs : List TransactionInfo) : List TransactionInfo := txs.filter (·.isSignBlockTx)

structure Vouches (lib : TorrentLib) (prevHash : Bytes) (txs : List TransactionInfo) (cores : List Bytes) : Prop where
  self : ∀ tx ∈ signTxs txs, tx.toAddress = tx.fromAddress
  data : ∀ tx ∈ signTxs txs, StringUtils.bin2hex tx.data = prevHash
  cores : ((signTxs txs).map fun tx => sender lib tx.fromAddress).Subperm cores

variable {lib : TorrentLib} {prevHash : Bytes} {txs : List TransactionInfo} {cores : List Bytes}

theorem vouches_cons_of_not {tx : TransactionInfo} (other : tx.isSignBlockTx = false) :
    Vouches lib prevHash (tx :: txs) cores ↔ Vouches lib prevHash txs cores := by
  have same : signTxs (tx :: txs) = signTxs txs := by simp [signTxs, other]
  constructor
  · rintro ⟨self, data, covered⟩
    exact ⟨same ▸ self, same ▸ data, same ▸ covered⟩
  · rintro ⟨self, data, covered⟩
    exact ⟨same ▸ self, same ▸ data, same ▸ covered⟩

theorem vouches_cons {tx : TransactionInfo} (sign : tx.isSignBlockTx = true) :
    Vouches lib prevHash (tx :: txs) cores ↔
      tx.toAddress = tx.fromAddress ∧ sender lib tx.fromAddress ∈ cores ∧ StringUtils.bin2hex tx.data = prevHash ∧
        Vouches lib prevHash txs (cores.erase (sender lib tx.fromAddress)) := by
  have next : signTxs (tx :: txs) = tx :: signTxs txs := by simp [signTxs, sign]
  constructor
  · rintro ⟨self, data, covered⟩
    rw [next, List.forall_mem_cons] at self data
    rw [next, List.map_cons, cons_subperm_iff_erase] at covered
    exact ⟨self.1, covered.1, data.1, self.2, data.2, covered.2⟩
  · rintro ⟨same, inside, hash, self, data, covered⟩
    refine ⟨?_, ?_, ?_⟩
    · exact next ▸ List.forall_mem_cons.mpr ⟨same, self⟩
    · exact next ▸ List.forall_mem_cons.mpr ⟨hash, data⟩
    · rw [next, List.map_cons, cons_subperm_iff_erase]
      exact ⟨inside, covered⟩

theorem coreLoop_iff (lib : TorrentLib) (prevHash : Bytes) (txs : List TransactionInfo) (cores : List Bytes)
    (succ : Bool) :
    (coreLoop lib prevHash txs cores succ).1 = true ↔ (txs = [] → succ = true) ∧ Vouches lib prevHash txs cores := by
  induction txs generalizing cores succ with
  | nil => simpa [coreLoop] using fun _ => ⟨by simp [signTxs], by simp [signTxs], by simp [signTxs]⟩
  | cons tx txs ih =>
      cases sign : tx.isSignBlockTx with
      | false => simp [coreLoop, sign, ih, vouches_cons_of_not]
      | true =>
          rw [vouches_cons sign]
          by_cases self : tx.toAddress = tx.fromAddress
          · by_cases inside : sender lib tx.fromAddress ∈ cores
            · by_cases hash : StringUtils.bin2hex tx.data = prevHash
              · simp [coreLoop, sign, self, hash, inside, ih]
              · simp [coreLoop, sign, self, hash, inside]
            · simp [coreLoop, sign, self, inside]
          · simp [coreLoop, sign, self]

theorem coreLoop_used (lib : TorrentLib) (prevHash : Bytes) (txs : List TransactionInfo) (cores : List Bytes)
    (succ : Bool) (passed : (coreLoop lib prevHash txs cores succ).1 = true) :
    (coreLoop lib prevHash txs cores succ).2.length + (signTxs txs).length = cores.length := by
  induction txs generalizing cores succ with
  | nil => simp [coreLoop, signTxs]
  | cons tx txs ih =>
      have vouches := ((coreLoop_iff lib prevHash (tx :: txs) cores succ).mp passed).2
      cases sign : tx.isSignBlockTx with
      | false =>
          simp only [coreLoop, sign, Bool.not_false, if_true] at passed ⊢
          simpa [signTxs, sign] using ih cores true passed
      | true =>
          obtain ⟨self, inside, hash, -⟩ := (vouches_cons sign).mp vouches
          simp only [sender] at inside
          have removed := List.length_erase_of_mem inside
          have present := List.length_pos_of_mem inside
          simp only [coreLoop, sign, self, inside, hash, Bool.not_true, Bool.false_eq_true, if_false, if_true, ne_eq,
            not_true_eq_false] at passed ⊢
          have rest := ih _ true passed
          simp only [signTxs, sign, List.filter_cons_of_pos, List.length_cons] at rest ⊢
          omega

structure Accepted (env : Env) (bi : BlockInfo) (prevHash : Bytes) : Prop where
  txs : bi.txs ≠ []
  self : ∀ tx ∈ signTxs (bi.txs.take 7), tx.toAddress = tx.fromAddress
  data : ∀ tx ∈ signTxs (bi.txs.take 7), StringUtils.bin2hex tx.data = prevHash
  cores : ∀ address, ((signTxs (bi.txs.take 7)).map fun tx => sender env.lib tx.fromAddress).count address ≤
    env.settings.cores.count address

theorem accepted_iff {env : Env} {bi : BlockInfo} :
    Accepted env bi prevHash ↔ (coreLoop env.lib prevHash (bi.txs.take 7) env.settings.cores false).1 = true := by
  have empty : (bi.txs.take 7 = [] → false = true) ↔ bi.txs ≠ [] := by simp
  rw [coreLoop_iff, empty]
  constructor
  · rintro ⟨txs, self, data, counted⟩
    exact ⟨txs, self, data, List.subperm_ext_iff.mpr fun address _ => counted address⟩
  · rintro ⟨txs, self, data, covered⟩
    exact ⟨txs, self, data, covered.count_le⟩

theorem coreAddrVerification_ordinary (env : Env) (prevHash : Bytes) {bi : BlockInfo} {number : Nat}
    (state : bi.isStateBlock = false) (forging : bi.isForgingBlock = false) (numbered : bi.blockNumber = some number)
    (outside : autoSignedBlock number = false) :
    (Accepted env bi prevHash ∧ coreAddrVerification env bi prevHash = (signTxs (bi.txs.take 7)).length) ∨
      (¬Accepted env bi prevHash ∧ coreAddrVerification env bi prevHash = -1) := by
  rw [accepted_iff]
  have used := coreLoop_used env.lib prevHash (bi.txs.take 7) env.settings.cores false
  simp only [coreAddrVerification, state, forging, numbered, outside, Bool.or_self, Bool.false_eq_true, if_false]
  rcases looped : coreLoop env.lib prevHash (bi.txs.take 7) env.settings.cores false with ⟨passed, rest⟩
  rw [looped] at used
  cases passed with
  | false => exact .inr ⟨Bool.false_ne_true, rfl⟩
  | true =>
      have length := used rfl
      refine .inl ⟨rfl, ?_⟩
      simp only at length ⊢
      omega

theorem verification_counts_core_signatures (env : Env) (bi : BlockInfo) (prevHash : Bytes) (number : Nat)
    (state : bi.isStateBlock = false) (forging : bi.isForgingBlock = false) (numbered : bi.blockNumber = some number)
    (outside : autoSignedBlock number = false) :
    (0 ≤ coreAddrVerification env bi prevHash ↔ Accepted env bi prevHash) ∧
      (Accepted env bi prevHash → coreAddrVerification env bi prevHash = (signTxs (bi.txs.take 7)).length) ∧
      (¬Accepted env bi prevHash → coreAddrVerification env bi prevHash = -1) := by
  rcases coreAddrVerification_ordinary env prevHash state forging numbered outside with
    ⟨accepted, value⟩ | ⟨refused, value⟩
  · refine ⟨iff_of_true ?_ accepted, fun _ => value, fun refused => absurd accepted refused⟩
    rw [value]
    exact Int.natCast_nonneg _
  · refine ⟨iff_of_false ?_ refused, fun accepted => absurd accepted refused, fun _ => value⟩
    rw [value]
    decide

theorem verification_counts_two_of_one_core :
    let env : Env := ⟨⟨fun _ => none, id⟩, ⟨[[97], [98], [97]], true, 1, 100, 5⟩⟩
    let bi : BlockInfo := ⟨[], [], false, false, some 13001,
      [⟨true, [97], [97], [7]⟩, ⟨false, [99], [100], []⟩, ⟨true, [65], [65], [7]⟩]⟩
    Accepted env bi (text "07") ∧ coreAddrVerification env bi (text "07") = 2 := by
  intro env bi
  obtain ⟨iff, counts, -⟩ := verification_counts_core_signatures env bi (text "07") 13001 rfl rfl rfl (by decide)
  have accepted : Accepted env bi (text "07") := iff.mp (by decide)
  exact ⟨accepted, counts accepted⟩

def senders (lib : TorrentLib) (txs : List SignTransactionInfo) : List Bytes :=
  txs.map fun tx => sender lib tx.address

theorem signLoop_iff (lib : TorrentLib) (txs : List SignTransactionInfo) (cores : List Bytes) (succ : Bool) :
    (signLoop lib txs cores succ).1 = true ↔ (txs = [] → succ = true) ∧ (senders lib txs).Subperm cores := by
  induction txs generalizing cores succ with
  | nil => simp [signLoop, senders]
  | cons tx txs ih =>
      have next : (senders lib (tx :: txs)).Subperm cores ↔
          sender lib tx.address ∈ cores ∧ (senders lib txs).Subperm (cores.erase (sender lib tx.address)) :=
        cons_subperm_iff_erase
      rw [next]
      by_cases inside : sender lib tx.address ∈ cores
      · simp [signLoop, inside, ih]
      · simp [signLoop, inside]

theorem signLoop_used (lib : TorrentLib) (txs : List SignTransactionInfo) (cores : List Bytes) (succ : Bool)
    (passed : (signLoop lib txs cores succ).1 = true) :
    (signLoop lib txs cores succ).2.length + txs.length = cores.length := by
  induction txs generalizing cores succ with
  | nil => simp [signLoop]
  | cons tx txs ih =>
      have covered := ((signLoop_iff lib (tx :: txs) cores succ).mp passed).2
      have inside : (lib.calcHexString tx.address).map lowerCase ∈ cores := covered.subset List.mem_cons_self
      have removed := List.length_erase_of_mem inside
      have present := List.length_pos_of_mem inside
      simp only [signLoop, inside, if_true] at passed ⊢
      have rest := ih _ true passed
      rw [List.length_cons]
      omega

theorem signBlockVerification_pos_iff (env : Env) (info : SignBlockInfo) :
    0 < signBlockVerification env info ↔
      info.txs ≠ [] ∧ (senders env.lib (info.txs.take 7)).Subperm env.settings.cores := by
  have empty : (info.txs.take 7 = [] → false = true) ↔ info.txs ≠ [] := by simp
  have passes := signLoop_iff env.lib (info.txs.take 7) env.settings.cores false
  have used := signLoop_used env.lib (info.txs.take 7) env.settings.cores false
  rw [empty] at passes
  rw [← passes, signBlockVerification]
  rcases looped : signLoop env.lib (info.txs.take 7) env.settings.cores false with ⟨passed, rest⟩
  rw [looped] at passes used
  cases passed with
  | false => exact iff_of_false (by simp) Bool.false_ne_true
  | true =>
      have some : 0 < (info.txs.take 7).length := by
        simpa [List.length_pos_iff] using (passes.mp rfl).1
      have length := used rfl
      refine iff_of_true ?_ rfl
      simp only at length ⊢
      omega

structure SignRule (env : Env) (info : SignBlockInfo) : Prop where
  cores : ∀ address, (senders env.lib (info.txs.take 7)).count address ≤ env.settings.cores.count address
  hashes : ∀ tx ∈ info.txs.take 7, tx.blockHash = info.prevHash

-- The loop does not look at `blockHash`: the records may be signatures of another block.
theorem sign_block_rule_iff (env : Env) (info : SignBlockInfo) :
    (0 < signBlockVerification env info → SignRule env info) ↔
      (∀ tx ∈ info.txs.take 7, tx.blockHash = info.prevHash) ∨ info.txs = [] ∨
        ∃ address, env.settings.cores.count address < (senders env.lib (info.txs.take 7)).count address := by
  have counted : (senders env.lib (info.txs.take 7)).Subperm env.settings.cores ↔
      ∀ address, (senders env.lib (info.txs.take 7)).count address ≤ env.settings.cores.count address :=
    ⟨fun covered => covered.count_le, fun counts => List.subperm_ext_iff.mpr fun address _ => counts address⟩
  rw [signBlockVerification_pos_iff, counted]
  constructor
  · intro rule
    by_cases none : info.txs = []
    · exact .inr (.inl none)
    · by_cases counts : ∀ address,
          (senders env.lib (info.txs.take 7)).count address ≤ env.settings.cores.count address
      · exact .inl (rule ⟨none, counts⟩).hashes
      · exact .inr (.inr (by simpa using counts))
  · rintro (hashes | none | ⟨address, more⟩) ⟨txs, counts⟩
    · exact ⟨counts, hashes⟩
    · exact absurd none txs
    · exact absurd (counts address) (not_le.mpr more)

theorem sign_block_of_other_block_accepted :
    let env : Env := ⟨⟨fun _ => none, id⟩, ⟨[[97]], true, 1, 100, 5⟩⟩
    let info : SignBlockInfo := ⟨List.replicate 32 1, [⟨List.replicate 32 2, [97]⟩]⟩
    0 < signBlockVerification env info ∧ ¬SignRule env info := by
  refine ⟨by decide, fun rule => ?_⟩
  exact absurd (rule.hashes ⟨List.replicate 32 2, [97]⟩ (by decide)) (by decide)

end FullnodeClient.Cache
