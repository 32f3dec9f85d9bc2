import Fortis.Core.HtlcSafety
import Fortis.Core.Machine
import Fortis.Edge.Store

/-!
# The contracts of a match, as the edge rebuilds them

From the relayed keys and hashlock the edge rebuilds a leg's witness script; it checks announced
fundings and exempts swap spends by it.
-/

namespace Fortis.Edge

open Fortis.Core Lib List

def hex32 (text : String) : Option (Fixed 32) := do
  Fixed.ofBytes? 32 (← hexDecode text)

/-- `bitcoin::PublicKey::from_str`: compressed, or uncompressed without the hybrid prefixes. -/
def pubkeyFromStr (lib : BitcoinLib) (text : String) : Option PublicKey :=
  if text.length = 66 then (hexDecode text).bind lib.fromSlice
  else if text.length = 130 then do
    let bytes ← hexDecode text
    if bytes.head? = some 4 then lib.fromSlice bytes else none
  else none

def trim (text : String) : String :=
  String.ofList ((text.toList.dropWhile whiteSpace).reverse.dropWhile whiteSpace).reverse

theorem whiteSpace_hexDigit {value : Nat} (small : value < 16) :
    whiteSpace (hexDigit value) = false := by
  have each : ∀ digit : Fin 16, whiteSpace (hexDigit digit.val) = false := by decide
  exact each ⟨value, small⟩

variable {lib : BitcoinLib} {chain : Chain} (bytes : Bytes)

theorem whiteSpace_hexChars : ∀ char ∈ hexChars bytes, whiteSpace char = false := by
  induction bytes with
  | nil =>
    intro char mem
    cases mem
  | cons byte rest ih =>
    have bound : byte.toNat < 256 := byte.toNat_lt
    exact forall_mem_cons.mpr ⟨whiteSpace_hexDigit (by omega),
      forall_mem_cons.mpr ⟨whiteSpace_hexDigit (by omega), ih⟩⟩

theorem trim_hexEncode : trim (hexEncode bytes) = hexEncode bytes := by
  have kept {chars : List Char} (digits : ∀ char ∈ chars, whiteSpace char = false) :
      chars.dropWhile whiteSpace = chars := by
    rcases chars with _ | ⟨char, rest⟩
    · rfl
    rw [dropWhile_cons_of_neg]
    rw [digits char mem_cons_self]
    decide
  have digits := whiteSpace_hexChars bytes
  have back : ∀ char ∈ (hexChars bytes).reverse, whiteSpace char = false := fun char mem =>
    digits char (mem_reverse.mp mem)
  rw [trim, hexEncode, String.toList_ofList, kept digits, kept back, reverse_reverse]

section

variable (lib : BitcoinLib) (m : Match) (chain : Chain)

/-- The contract of a leg; nothing until both parties' keys and the hashlock are relayed. -/
def legContract : Option HtlcContract := do
  let (initiatorXbt, initiatorBtc) ← m.keys.1
  let (participantXbt, participantBtc) ← m.keys.2
  let hashlock ← m.hashlock.bind hex32
  let (btcParams, xbtParams) ← (networkParams m.terms.network).toOption
  match chain with
  | .xbt =>
    let redeem ← pubkeyFromStr lib participantXbt
    let refund ← pubkeyFromStr lib initiatorXbt
    (HtlcContract.tryBuild lib.toCrypto xbtParams m.terms.contractVersion hashlock redeem refund
      m.terms.xbtLocktime m.terms.xbtSat).toOption
  | .btc =>
    let redeem ← pubkeyFromStr lib initiatorBtc
    let refund ← pubkeyFromStr lib participantBtc
    (HtlcContract.tryBuild lib.toCrypto btcParams m.terms.contractVersion hashlock redeem refund
      m.terms.btcLocktime m.terms.btcSat).toOption

def legWitnessScript : Option Bytes :=
  (legContract lib m chain).map HtlcContract.witnessScript

end

inductive Unpaid
  | noScript
  | noReader
  | notSeen
  | mismatch
  | readFailed (text : String)

structure CreatedOutput where
  scriptpubkeyHex : String
  valueSat : Nat

abbrev ChainReader := Chain → String → Nat → Except String (Option CreatedOutput)

def eqIgnoreAsciiCase (first second : String) : Bool :=
  first.toList.map Char.toLower = second.toList.map Char.toLower

def legPaidOnChain (lib : BitcoinLib) (reader : Option ChainReader) (m : Match) (chain : Chain)
    (htlc : OutPoint) : Except Unpaid Unit := do
  let script ← (legWitnessScript lib m chain).elim (throw .noScript) pure
  let createdOutput ← reader.elim (throw .noReader) pure
  match createdOutput chain htlc.txid.toStr htlc.vout with
  | .error text => throw (.readFailed text)
  | .ok none => throw .notSeen
  | .ok (some out) =>
    let scriptPubkey := newP2wsh (lib.sha256 script)
    if !eqIgnoreAsciiCase out.scriptpubkeyHex (hexEncode scriptPubkey) ||
        out.valueSat ≠ m.terms.legSat chain then
      throw .mismatch

def isSwapSpend (lib : BitcoinLib) (store : Store) (chain : Chain) (rawTxHex : String) : Bool :=
  match lib.fromHex (trim rawTxHex) with
  | none => false
  | some tx =>
    match tx.input with
    | [input] =>
      let outpoint := input.previousOutput
      ((store.matchesFundedBy chain outpoint.txid.toStr outpoint.vout).filterMap
        (legWitnessScript lib · chain)).any fun script =>
          input.witness.getLast? = some script
    | _ => false

def legKeys (lib : BitcoinLib) (m : Match) : Chain → Option (PublicKey × PublicKey)
  | .xbt => do
    let (participantXbt, _) ← m.keys.2
    let (initiatorXbt, _) ← m.keys.1
    return (← pubkeyFromStr lib participantXbt, ← pubkeyFromStr lib initiatorXbt)
  | .btc => do
    let (_, initiatorBtc) ← m.keys.1
    let (_, participantBtc) ← m.keys.2
    return (← pubkeyFromStr lib initiatorBtc, ← pubkeyFromStr lib participantBtc)

theorem toOption_eq_some {ε α : Type} {result : Except ε α} {value : α}
    (found : result.toOption = some value) : result = .ok value := by
  rcases result with fault | given
  · cases found
  cases found
  rfl

theorem legContract_eq_some {m : Match} {contract : HtlcContract}
    (found : legContract lib m chain = some contract) :
    ∃ redeem refund hashlock params, legKeys lib m chain = some (redeem, refund) ∧
      m.hashlock.bind hex32 = some hashlock ∧
        HtlcContract.tryBuild lib.toCrypto params m.terms.contractVersion hashlock redeem refund
          (m.terms.legLocktime chain) (m.terms.legSat chain) = .ok contract := by
  simp only [legContract, Option.bind_eq_bind, Option.bind_eq_some_iff] at found
  obtain ⟨initiator, hasInitiator, participant, hasParticipant, hashlock, locked, params, _,
    built⟩ := found
  have lock := Option.bind_eq_some_iff.mpr locked
  cases chain with
  | xbt =>
    obtain ⟨redeem, isRedeem, built⟩ := Option.bind_eq_some_iff.mp built
    obtain ⟨refund, isRefund, built⟩ := Option.bind_eq_some_iff.mp built
    refine ⟨redeem, refund, hashlock, params.2, ?_, lock, toOption_eq_some built⟩
    simp [legKeys, hasInitiator, hasParticipant, isRedeem, isRefund]
  | btc =>
    obtain ⟨redeem, isRedeem, built⟩ := Option.bind_eq_some_iff.mp built
    obtain ⟨refund, isRefund, built⟩ := Option.bind_eq_some_iff.mp built
    refine ⟨redeem, refund, hashlock, params.1, ?_, lock, toOption_eq_some built⟩
    simp [legKeys, hasInitiator, hasParticipant, isRedeem, isRefund]

def RevealsAt (outpoint : OutPoint) (script : Bytes) (tx : Transaction) : Prop :=
  ∃ input, tx.input = [input] ∧ input.previousOutput = outpoint ∧
    input.witness.getLast? = some script

/-- The edge recognises exactly the spends that reveal the script of a match recorded there. -/
theorem isSwapSpend_iff {store : Store} {raw : String} : isSwapSpend lib store chain raw = true ↔
      ∃ tx outpoint script m, lib.fromHex (trim raw) = some tx ∧
        m ∈ store.matchesFundedBy chain outpoint.txid.toStr outpoint.vout ∧
          legWitnessScript lib m chain = some script ∧ RevealsAt outpoint script tx := by
  unfold isSwapSpend
  rcases decoded : lib.fromHex (trim raw) with _ | tx
  · simp
  match inputs : tx.input with
  | [] => simp [RevealsAt, inputs]
  | first :: second :: rest => simp [RevealsAt, inputs]
  | [input] =>
    simp only [inputs, any_eq_true, mem_filterMap, decide_eq_true_eq]
    constructor
    · rintro ⟨script, ⟨m, mem, scripted⟩, last⟩
      exact ⟨tx, input.previousOutput, script, m, rfl, mem, scripted, input, inputs, rfl, last⟩
    rintro ⟨tx', outpoint, script, m, same, mem, scripted, input', inputs', rfl, last⟩
    cases same
    have single : input' = input := by
      rw [inputs] at inputs'
      exact (cons.inj inputs').1.symm
    subst single
    exact ⟨script, ⟨m, mem, scripted⟩, last⟩

section

variable (lib : BitcoinLib) (m : Match) (chain : Chain) (m' : Match) (chain' : Chain)

/-- Two legs have the same contract: version, hashlock, keys and lock time. -/
def SameLeg : Prop :=
  m.terms.contractVersion = m'.terms.contractVersion ∧
    m.hashlock.bind hex32 = m'.hashlock.bind hex32 ∧ legKeys lib m chain = legKeys lib m' chain' ∧
        m.terms.legLocktime chain = m'.terms.legLocktime chain'

def KeysDistinct : Prop :=
  ∀ redeem refund redeem' refund', legKeys lib m chain = some (redeem, refund) →
    legKeys lib m' chain' = some (redeem', refund') →
      (lib.pubkeyHash redeem = lib.pubkeyHash redeem' → redeem = redeem') ∧
        (lib.pubkeyHash refund = lib.pubkeyHash refund' → refund = refund')

end

theorem sameLeg_of_script {m m' : Match} {chain' : Chain} {script : Bytes}
    (u32 : m.terms.legLocktime chain < u32Size) (u32' : m'.terms.legLocktime chain' < u32Size)
    (nodup : KeysDistinct lib m chain m' chain')
    (scripted : legWitnessScript lib m chain = some script)
    (scripted' : legWitnessScript lib m' chain' = some script) : SameLeg lib m chain m' chain' := by
  obtain ⟨contract, found, rfl⟩ := Option.map_eq_some_iff.mp scripted
  obtain ⟨contract', found', same⟩ := Option.map_eq_some_iff.mp scripted'
  obtain ⟨redeem, refund, hashlock, params, keys, lock, built⟩ := legContract_eq_some found
  obtain ⟨redeem', refund', hashlock', params', keys', lock', built'⟩ := legContract_eq_some found'
  obtain ⟨version, hashlocks, locktimes, redeems, refunds⟩ :=
    tryBuild_script_injective built built' u32 u32' same.symm
  obtain ⟨redeemOnly, refundOnly⟩ := nodup redeem refund redeem' refund' keys keys'
  refine ⟨version, ?_, ?_, locktimes⟩
  · rw [lock, lock', hashlocks]
  · rw [keys, keys', redeemOnly redeems, refundOnly refunds]

end Fortis.Edge
