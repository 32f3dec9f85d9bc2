import Fortis.Core.Progress

/-!
# The fees of a contract's spends

A spend is priced before it is signed, by a transaction of the same shape with the
longest signatures and payout script.
-/

namespace Fortis.Core

open Lib List Nat HtlcContract

variable {contract : HtlcContract} {dest : Bytes} {path : HtlcPath} {tx : Transaction}
  {prevout : OutPoint} {fee rate lockTime sequence : Nat} {witness : Witness}

/-! ## Sizes -/

theorem varBytesSize_mono {short long : Bytes} (shorter : short.length ≤ long.length) :
    varBytesSize short ≤ varBytesSize long := by
  unfold varBytesSize compactSize
  split_ifs <;> omega

/-- The size of an input's witness. -/
def witnessSize (witness : Witness) : Nat :=
  compactSize witness.length + (witness.map varBytesSize).sum

theorem HtlcContract.skeleton_eq
    (made : contract.spendSkeleton prevout dest fee lockTime sequence = .ok tx) :
    tx = ⟨2, lockTime, [⟨prevout, [], sequence, []⟩],
      contract.spendOutputs (contract.value - fee) dest⟩ := by
  unfold spendSkeleton at made
  split at made
  · cases made
  cases made
  rfl

theorem vsize_mono {prevout' : OutPoint} {dest' : Bytes} {fee' lockTime' sequence' : Nat}
    {tx' : Transaction} {witness' : Witness}
    (made : contract.spendSkeleton prevout dest fee lockTime seq = .ok tx)
    (made' : contract.spendSkeleton prevout' dest' fee' lockTime' sequence' = .ok tx')
    (payout : dest.length ≤ dest'.length) (shown : witness.isEmpty = false)
    (shown' : witness'.isEmpty = false) (shorter : witnessSize witness ≤ witnessSize witness') :
    (tx.setWitness 0 witness).vsize ≤ (tx'.setWitness 0 witness').vsize := by
  have payout := varBytesSize_mono payout
  rw [skeleton_eq made, skeleton_eq made']
  simp only [witnessSize, Transaction.vsize, Transaction.baseSize, Transaction.totalSize,
    Transaction.usesSegwit, Transaction.setWitness, spendOutputs, TxIn.baseSize,
    TxIn.witnessSize, modify_zero_cons, map_cons, map_nil, sum_cons, sum_nil, length_cons, any_cons,
    shown, shown', Bool.not_false, Bool.true_or, if_true] at shorter ⊢
  omega

theorem witnessSize_mono {short long : Witness}
    (shorter : Forall₂ (fun item other : Bytes => item.length ≤ other.length) short long) :
    witnessSize short ≤ witnessSize long := by
  have sums : (short.map varBytesSize).sum ≤ (long.map varBytesSize).sum := by
    induction shorter with
    | nil => exact le_rfl
    | cons item _ ih => exact Nat.add_le_add (varBytesSize_mono item) ih
  unfold witnessSize
  rw [Forall₂.length_eq shorter]
  omega

variable {preimage : Fixed 32}

namespace HtlcContract

/-- The witness of each path. -/
def witnessOf (contract : HtlcContract) (sig ours pubkey preimage : Bytes) : HtlcPath → Witness
  | .redeem => [sig, pubkey, preimage, [1], contract.witnessScript]
  | .refund => refundWitness contract.version sig pubkey contract.witnessScript
  | .release => releaseWitness sig ours contract.witnessScript

/-- A spend of each path, made and signed. -/
def finished (contract : HtlcContract) (prevout : OutPoint) (dest : Bytes) (fee : Nat)
    (sig ours : Bytes) (key : PublicKey) (preimage : Fixed 32) :
    HtlcPath → Except WalletError Transaction
  | .redeem => do
    return contract.finalizeRedeem (← contract.redeemTx prevout dest fee) 0 sig key preimage
  | .refund => do return contract.finalizeRefund (← contract.refundTx prevout dest fee) 0 sig key
  | .release => do contract.finalizeRelease (← contract.releaseTx prevout dest fee) 0 sig ours

theorem finished_eq {sig ours : Bytes} {key : PublicKey}
    (done : contract.finished prevout dest fee sig ours key preimage path = .ok tx) :
    (path = .release → contract.hasRelease = true) ∧ ∃ unsigned lockTime,
      contract.spendSkeleton prevout dest fee lockTime enableRbfNoLocktime = .ok unsigned ∧
      tx = unsigned.setWitness 0
        (contract.witnessOf sig ours key.serialize.val preimage.val path) := by
  cases path with
  | redeem =>
    obtain ⟨unsigned, made, done⟩ := ok_of_bind done
    cases done
    exact ⟨nofun, unsigned, _, made, rfl⟩
  | refund =>
    obtain ⟨unsigned, made, done⟩ := ok_of_bind done
    cases done
    exact ⟨nofun, unsigned, _, made, rfl⟩
  | release =>
    obtain ⟨unsigned, made, done⟩ := ok_of_bind done
    unfold releaseTx at made
    unfold finalizeRelease at done
    split at made
    · cases made
    next has =>
    rw [if_neg has] at done
    cases done
    exact ⟨fun _ => by simpa using has, unsigned, _, made, rfl⟩

end HtlcContract

/-- The fee is that of a transaction with the longest signatures and payout script. -/
theorem htlcSpendFee_eq (contract : HtlcContract) (path : HtlcPath)
    (has : path = .release → contract.hasRelease = true) : ∃ sizing lockTime,
      contract.spendSkeleton .null (replicate 34 0) 0 lockTime enableRbfNoLocktime = .ok sizing ∧
      ∀ rate, htlcSpendFee contract path rate = .ok (min ((sizing.setWitness 0
        (contract.witnessOf (replicate 72 0) (replicate 72 0) (replicate 33 0) (replicate 32 0)
          path)).vsize * rate) u64Max) := by
  have free (lockTime : Nat) : contract.spendSkeleton .null (replicate 34 0) 0 lockTime
      enableRbfNoLocktime = .ok _ := if_neg (not_lt_zero _)
  cases path with
  | redeem =>
    refine ⟨_, 0, free 0, fun rate => ?_⟩
    simp only [htlcSpendFee, redeemTx, free]
    rfl
  | refund =>
    refine ⟨_, contract.locktime, free _, fun rate => ?_⟩
    simp only [htlcSpendFee, refundTx, free]
    rfl
  | release =>
    refine ⟨_, 0, free 0, fun rate => ?_⟩
    simp only [htlcSpendFee, releaseTx, free, has]
    rfl

/-- A fee covers its feerate times the size of what is signed, up to the largest amount. -/
theorem fee_covers_size {sig ours : Bytes} {key : PublicKey} {preimage : Fixed 32}
    (done : contract.finished prevout dest fee sig ours key preimage path = .ok tx)
    (payout : dest.length ≤ 34) (short : sig.length ≤ 72) (short' : ours.length ≤ 72)
    (rate : Nat) : ∃ priced, htlcSpendFee contract path rate = .ok priced ∧
      min (rate * tx.vsize) u64Max ≤ priced := by
  obtain ⟨has, unsigned, lockTime, made, rfl⟩ := finished_eq done
  obtain ⟨sizing, sizingLock, sized, fees⟩ := htlcSpendFee_eq contract path has
  refine ⟨_, fees rate, min_le_min_right _ ?_⟩
  rw [mul_comm]
  refine mul_le_mul_right _ (vsize_mono made sized (by simpa using payout) ?_ ?_ ?_)
  · cases path <;> rfl
  · cases path <;> rfl
  apply witnessSize_mono
  cases path with
  | redeem => simp [witnessOf, short, key.serialize.property, preimage.property]
  | refund =>
    by_cases second : contractV2 ≤ contract.version <;>
      simp [witnessOf, refundWitness, second, short, key.serialize.property]
  | release => simp [witnessOf, releaseWitness, short, short']

/-- A contract of the second version, with an empty script. -/
def bareContract (value : Nat) : HtlcContract :=
  ⟨contractV2, [], [], value, OutPoint.null.txid, 0, .unified⟩

/-- Its redeem. -/
def bareRedeem : Except WalletError Transaction :=
  (bareContract 9).finished .null [] 1 [] [] ⟨Fixed.zero 33⟩ (Fixed.zero 32) .redeem

theorem fee_covers_size_redeem : ∃ tx priced, bareRedeem = .ok tx ∧
    htlcSpendFee (bareContract 9) .redeem 2 = .ok priced ∧ min (2 * tx.vsize) u64Max ≤ priced := by
  have done : bareRedeem = .ok _ := rfl
  obtain ⟨priced, covers⟩ := fee_covers_size done (by decide) (by decide) (by decide) 2
  exact ⟨_, priced, done, covers⟩

/-- The fee stops at the largest amount. -/
theorem highest_feerate_underpays : ∃ tx priced, bareRedeem = .ok tx ∧
    htlcSpendFee (bareContract 9) .redeem u64Max = .ok priced ∧ priced < u64Max * tx.vsize :=
  ⟨_, u64Max, rfl, by decide +kernel, by decide +kernel⟩

/-! ## The variants of a spend -/

theorem eraseDups_concat {items : List Nat} {item : Nat} : (items ++ [item]).eraseDups =
    if item ∈ items.eraseDups then items.eraseDups else items.eraseDups ++ [item] := by
  rw [eraseDups_append]
  by_cases known : item ∈ items <;> simp [removeAll, known, eraseDups_cons]

theorem eraseDups_firsts (items : List Nat) : items.eraseDups.Nodup ∧ items.eraseDups <+ items := by
  induction items using reverseRecOn with
  | nil => exact ⟨nodup_nil, Sublist.refl []⟩
  | append_singleton init last ih =>
    rw [eraseDups_concat]
    split
    next known => exact ⟨ih.1, ih.2.trans (sublist_append_left init [last])⟩
    next new =>
      refine ⟨?_, ih.2.append (Sublist.refl _)⟩
      rw [← concat_eq_append]
      exact ih.1.concat new

theorem htlcSpendFee_total (contract : HtlcContract) (path : HtlcPath) :
    ∃ size, ∀ rate, htlcSpendFee contract path rate = .ok (min (size * rate) u64Max) := by
  by_cases none : path = .release ∧ contract.hasRelease = false
  · obtain ⟨_, _, _, fees⟩ := htlcSpendFee_eq contract .refund nofun
    refine ⟨_, fun rate => Eq.trans ?_ (fees rate)⟩
    simp [htlcSpendFee, none.1, none.2]
  · obtain ⟨_, _, _, fees⟩ := htlcSpendFee_eq contract path fun isRelease =>
      Bool.eq_true_of_not_eq_false fun lacks => none ⟨isRelease, lacks⟩
    exact ⟨_, fees⟩

variable {rates : List Nat}

theorem spendFees_eq {feeAt : Nat → Nat} (worth : minimalNonDust dest < contract.value)
    (fees : ∀ rate, htlcSpendFee contract path rate = .ok (feeAt rate))
    (given : rates ≠ []) : spendFees contract path dest rates = .ok (rates.map fun rate =>
      min (feeAt (min rate maxSwapFeerateSatVb))
        (contract.value - minimalNonDust dest)).eraseDups := by
  unfold spendFees
  rw [refuseIf_of_not given]
  change foldlM _ [] rates = _
  clear given
  induction rates using reverseRecOn with
  | nil => rfl
  | append_singleton init rate ih =>
    rw [foldlM_append, ih, map_append, map_singleton, eraseDups_concat]
    simp only [ok_bind, foldlM_cons, foldlM_nil, fees, refuseIf_of_not (not_le.mpr worth)]
    rfl

theorem spendFees_le {size : Nat} {fees : List Nat}
    (isFee : ∀ rate, htlcSpendFee contract path rate = .ok (min (size * rate) u64Max))
    (isFees : spendFees contract path dest rates = .ok fees) (mem : fee ∈ fees) :
    fee ≤ min (size * maxSwapFeerateSatVb) u64Max ∧ fee ≤ contract.value - minimalNonDust dest := by
  rcases rates with _ | ⟨first, rest⟩
  · cases isFees
  by_cases worth : minimalNonDust dest < contract.value
  · rw [spendFees_eq worth isFee (cons_ne_nil first rest)] at isFees
    cases isFees
    obtain ⟨rate, _, rfl⟩ := mem_map.mp (mem_eraseDups.mp mem)
    have low : size * min rate maxSwapFeerateSatVb ≤ size * maxSwapFeerateSatVb :=
      mul_le_mul_left _ (min_le_right _ _)
    omega
  · simp only [spendFees, refuseIf, foldlM_cons, isFee, ok_bind, if_pos (not_lt.mp worth)] at isFees
    cases isFees

/-- Two passes over a list, one result of the second for each item. -/
theorem mapM_mapM {α β γ ε : Type} {body : α → Except ε β} {next : β → Except ε γ}
    {good : α → γ → Prop} {items : List α} (each : ∀ item ∈ items, ∃ mid result,
      body item = .ok mid ∧ next mid = .ok result ∧ good item result) :
    ∃ mids results, items.mapM body = .ok mids ∧ mids.mapM next = .ok results ∧
      Forall₂ (next · = .ok ·) mids results ∧ Forall₂ good items results := by
  induction items with
  | nil => exact ⟨[], [], rfl, rfl, .nil, .nil⟩
  | cons item rest ih =>
    obtain ⟨⟨mid, result, isMid, isResult, fine⟩, others⟩ := forall_mem_cons.mp each
    obtain ⟨mids, results, isMids, isResults, pairs, fines⟩ := ih others
    refine ⟨mid :: mids, result :: results, ?_, ?_, .cons isResult pairs, .cons fine fines⟩
    · rw [mapM_cons, isMid, ok_bind, isMids]
      rfl
    · rw [mapM_cons, isResult, ok_bind, isResults]
      rfl

/-- The scripts of both versions show their hashlock. -/
theorem scriptHashlock_tryBuild {crypto : Crypto} {params : ChainParams} {hashlock : Fixed 32}
    {redeemPubkey refundPubkey : PublicKey} {version locktime value : Nat}
    (built : HtlcContract.tryBuild crypto params version hashlock redeemPubkey refundPubkey locktime
      value = .ok contract) : scriptHashlock contract.witnessScript = some hashlock := by
  have shows (rest : Bytes) : scriptHashlock (99 :: 130 :: 1 :: 32 :: 136 :: 168 ::
      (Script.pushSlice hashlock.val ++ rest)) = some hashlock := by
    have sized : hashlock.val.length = 32 := hashlock.property
    simp [scriptHashlock, Script.scan, Script.pushSlice, sized, Script.takeData, dropWhile]
  rcases tryBuild_script built with ⟨_, script⟩ | ⟨_, script⟩
  · rw [script]
    exact shows _
  · rw [script]
    exact shows _

/-- The machine can redeem: it holds the contract, the key and the preimage, and the library
signs. -/
structure CanRedeem (lib : BitcoinLib) (machine : SwapMachine) (contract : HtlcContract)
    (outpoint : OutPoint) (dest : Bytes) (key : SwapKey) (preimage : Fixed 32) : Prop where
  verified : machine.theirContract = some contract
  built : ∃ params redeemPubkey refundPubkey version locktime value, HtlcContract.tryBuild
    lib.toCrypto params version machine.params.hashlock redeemPubkey refundPubkey locktime value =
      .ok contract
  keyed : checkKey lib key machine.params.ourPubkeyRecv contract = .ok ()
  opens : lib.sha256 preimage.val = machine.params.hashlock
  parses : lib.fromSlice (key.pubkey lib).serialize.val = some (key.pubkey lib)
  signs : ∀ fee tx, contract.redeemTx outpoint dest fee = .ok tx →
    lib.RoundTrips tx ∧ ∃ message, contract.spendSighash lib tx 0 = .ok message

/-- Redeems signed at once are the presigned ones finished, one for each fee. -/
def Aligned (lib : BitcoinLib) (machine : SwapMachine) (contract : HtlcContract)
    (outpoint : OutPoint) (dest : Bytes) (key : SwapKey) (preimage : Fixed 32)
    (rates fees : List Nat) : Prop :=
  ∃ presigned txs, machine.presignRedeem lib outpoint dest key rates = .ok presigned ∧
    machine.signedRedeem lib outpoint dest key preimage rates = .ok txs ∧
    Forall₂ (finishPresignedRedeem lib · preimage = .ok ·) presigned txs ∧
    Forall₂ (fun fee tx => tx.output.head?.map TxOut.value = some (contract.value - fee)) fees txs

theorem CanRedeem.aligned {lib : BitcoinLib} {machine : SwapMachine} {outpoint : OutPoint}
    {key : SwapKey} {fees : List Nat}
    (can : CanRedeem lib machine contract outpoint dest key preimage)
    (isFees : spendFees contract .redeem dest rates = .ok fees)
    (low : ∀ fee ∈ fees, fee ≤ contract.value) :
    Aligned lib machine contract outpoint dest key preimage rates fees := by
  obtain ⟨body, presigns, each⟩ : ∃ body : Nat → Outcome PresignedRedeem,
      machine.presignRedeem lib outpoint dest key rates = fees.mapM body ∧
      ∀ fee ∈ fees, ∃ presigned tx, body fee = .ok presigned ∧
        finishPresignedRedeem lib presigned preimage = .ok tx ∧
        tx.output.head?.map TxOut.value = some (contract.value - fee) := by
    refine ⟨?body, ?_, fun fee mem => ?_⟩
    rotate_left
    · unfold SwapMachine.presignRedeem
      rw [SwapMachine.verifiedContract, can.verified]
      change (checkKey lib key _ _ >>= _) = _
      rw [can.keyed, ok_bind, isFees]
      rfl
    have made : contract.redeemTx outpoint dest fee = .ok _ := if_neg (not_lt.mpr (low fee mem))
    obtain ⟨trips, message, signed⟩ := can.signs fee _ made
    obtain ⟨_, _, _, _, _, _, built⟩ := can.built
    rw [made, Outcome.lift, ok_bind, signed]
    refine ⟨_, ?tx, rfl, ?_, ?_⟩
    rotate_left
    · unfold finishPresignedRedeem
      simp only [Codec.fromHex_toHex trips, hexDecode_hexEncode, Option.bind_some, can.parses,
        can.opens, orFail, pure_bind]
      change (refuseIf (scriptHashlock contract.witnessScript ≠ _) _ >>= _) = _
      rw [refuseIf_of_not (not_not.mpr (scriptHashlock_tryBuild built))]
      rfl
    · rfl
  obtain ⟨presigned, txs, isPresigned, isTxs, pairs, pays⟩ := mapM_mapM each
  refine ⟨presigned, txs, presigns.trans isPresigned, ?_, pairs, pays⟩
  unfold SwapMachine.signedRedeem
  rw [refuseIf_of_not (not_not.mpr can.opens), presigns, isPresigned]
  exact isTxs

/-- The fees of a spend's variants, and the redeems signed at them. -/
theorem spend_variants (contract : HtlcContract) (path : HtlcPath) (dest : Bytes) (rates : List Nat)
    (worth : minimalNonDust dest < contract.value) (given : rates ≠ []) :
    ∃ (feeAt : Nat → Nat) (fees : List Nat), (∀ rate, htlcSpendFee contract path rate = .ok
      (feeAt rate)) ∧ spendFees contract path dest rates = .ok fees ∧ fees ≠ [] ∧ fees.Nodup ∧
      fees = (rates.map fun rate => min (feeAt (min rate maxSwapFeerateSatVb))
        (contract.value - minimalNonDust dest)).eraseDups ∧
      (∀ fee ∈ fees, fee ≤ feeAt maxSwapFeerateSatVb ∧
      minimalNonDust dest ≤ contract.value - fee) ∧
      (rates.Pairwise (· ≤ ·) → fees.Pairwise (· < ·)) ∧
      ∀ lib machine outpoint key preimage, path = .redeem →
        CanRedeem lib machine contract outpoint dest key preimage →
          Aligned lib machine contract outpoint dest key preimage rates fees := by
  obtain ⟨size, isFee⟩ := htlcSpendFee_total contract path
  have isFees := spendFees_eq worth isFee given
  obtain ⟨nodup, sub⟩ := eraseDups_firsts (rates.map fun rate =>
    min (min (size * min rate maxSwapFeerateSatVb) u64Max) (contract.value - minimalNonDust dest))
  refine ⟨fun rate => min (size * rate) u64Max, _, isFee, isFees, ?_, nodup, rfl, fun fee mem =>
    ?_, fun sorted => ?_, ?_⟩
  · rcases exists_cons_of_ne_nil given with ⟨first, rest, rfl⟩
    rw [map_cons, eraseDups_cons]
    exact cons_ne_nil _ _
  · have bounds := spendFees_le isFee isFees mem
    exact ⟨bounds.1, by omega⟩
  · refine ((Pairwise.sublist sub (pairwise_map.mpr (sorted.imp fun {low high} le => ?_))).and
      nodup).imp fun both => lt_of_le_of_ne both.1 both.2
    have low : size * min low maxSwapFeerateSatVb ≤ size * min high maxSwapFeerateSatVb :=
      mul_le_mul_left _ (min_le_min_right _ le)
    omega
  rintro lib machine outpoint key preimage rfl can
  exact can.aligned isFees fun fee mem =>
    (spendFees_le isFee isFees mem).2.trans (sub_le _ _)

namespace SpendSample

open SwapMachine

/-- A library that takes every signature, and writes a transaction as what it pays. -/
def trusting : BitcoinLib where
  sha256 _ := OutPoint.null.txid
  hash160 _ := ⟨replicate 20 0, rfl⟩
  checkSig _ _ _ _ _ _ := true
  serialize tx := replicate ((tx.output.head?.map TxOut.value).getD 0) 0
  deserialize bytes :=
    some ⟨2, 0, [⟨.null, [], enableRbfNoLocktime, []⟩], [⟨bytes.length, []⟩]⟩
  publicKey _ := blank.ourPubkeySend
  fromSlice _ := some blank.ourPubkeySend
  signEcdsa _ _ := []
  verifyEcdsa _ sig _ := sig.isEmpty
  p2wshSignatureHash _ _ _ _ := .ok OutPoint.null.txid
  unifiedDigest _ _ _ _ := OutPoint.null.txid

def worth (value : Nat) : HtlcContract :=
  let witnessScript := contractScriptV2 trusting.toCrypto blank.hashlock blank.theirPubkeySend
    blank.ourPubkeySend 2
  { version := contractV2, witnessScript, scriptPubkey := newP2wsh OutPoint.null.txid, value
    hashlock := blank.hashlock, locktime := 2, sighashVariant := .unified }

def anyKey : SwapKey := ⟨OutPoint.null.txid, 33⟩

/-- The side that redeems the contract. -/
def payee (value : Nat) : SwapMachine :=
  { new { blank with recvAmount := value, theirContractLocktime := 2 } with
    theirContract := some (worth value) }

theorem canRedeem (value : Nat) :
    CanRedeem trusting (payee value) (worth value) .null [] anyKey (Fixed.zero 32) where
  verified := rfl
  built := ⟨.blake2b, blank.theirPubkeySend, blank.ourPubkeySend, contractV2, 2, value, rfl⟩
  keyed := rfl
  opens := rfl
  parses := rfl
  signs fee tx made := by
    cases skeleton_eq made
    refine ⟨?_, OutPoint.null.txid, rfl⟩
    change some _ = some _
    simp [worth, spendOutputs, trusting]

end SpendSample

open SpendSample in
/-- Three feerates, two of them equal: two redeems, of rising fees. -/
theorem spend_variants_redeem : spendFees (worth 9000) .redeem [] [1, 1, 2] = .ok [173, 346] ∧
    Aligned trusting (payee 9000) (worth 9000) .null [] anyKey (Fixed.zero 32) [1, 1, 2]
      [173, 346] := by
  have known : spendFees (worth 9000) .redeem [] [1, 1, 2] = .ok [173, 346] := by decide +kernel
  obtain ⟨_, fees, _, isFees, _, _, _, _, _, aligned⟩ :=
    spend_variants (worth 9000) .redeem [] [1, 1, 2] (by decide) (by decide)
  cases known.symm.trans isFees
  exact ⟨known, aligned _ _ _ _ _ rfl (canRedeem 9000)⟩

end Fortis.Core
