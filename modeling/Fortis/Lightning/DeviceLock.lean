import Fortis.Core.Bytes
import Fortis.Lib.Interleave

/-!
# The one-active-device lock

A device may run the node only while it holds the lock record of the shared store.  The record is
written under conditional versions: version zero inserts, version `n` replaces what is stored at
version `n`, and a deletion takes the version away with the record.

Versions start again at one after a deletion.  A hold that another device has overtaken is fenced
off only until the version of a new record climbs back to the one the stale hold remembers.
-/

namespace Fortis.Lightning

open Fortis.Core Lib List Option Proc Nat Pool

inductive LnError
  | backupUnavailable
  | activeOnAnotherDevice
  | lspUnreachable
  | insufficientLightning
  | noRoute
  | invoiceExpired
  | wrongNetwork
  | paymentStateUnknown
  | amountOutOfRange (minMsat maxMsat : Nat)
  | other (text : String)
  deriving DecidableEq

abbrev DeviceId := Fixed 16

namespace DeviceId

def hex (id : DeviceId) : String := hexEncode id.val

def lowerHex (c : Char) : Bool := ('0' ≤ c && c ≤ '9') || ('a' ≤ c && c ≤ 'f')

def fromHex (text : String) : Option DeviceId :=
  if text.length ≠ 32 ∨ ¬ text.toList.all lowerHex then none
  else (hexDecode text).bind (Fixed.ofBytes? 16)

theorem lowerHex_hexDigit {value : Nat} (small : value < 16) : lowerHex (hexDigit value) := by
  have all16 : ∀ digit : Fin 16, lowerHex (hexDigit digit.val) := by decide
  exact all16 ⟨value, small⟩

theorem lowerHex_hexChars (bytes : Bytes) : (hexChars bytes).all lowerHex := by
  induction bytes with
  | nil => rfl
  | cons byte rest ih =>
    have bound : byte.toNat < 256 := byte.toNat_lt
    simp [hexChars, ih, lowerHex_hexDigit (show byte.toNat / 16 < 16 by omega),
      lowerHex_hexDigit (mod_lt byte.toNat (by decide : 0 < 16))]

@[simp]
theorem fromHex_hex (id : DeviceId) : fromHex (hex id) = some id := by
  have sized : (hexEncode id.val).length = 32 := by
    rw [length_hexEncode, id.property]
  have lower : (hexEncode id.val).toList.all lowerHex := by
    simpa [hexEncode] using lowerHex_hexChars id.val
  simp [fromHex, hex, sized, lower]

end DeviceId

structure LockRecord where
  deviceId : DeviceId
  since : UInt64

/-- The JSON library on the lock's object, with its two fields read back. -/
structure LockJson where
  write : String → UInt64 → Bytes
  read : Bytes → Option (String × UInt64)
  read_write : ∀ deviceId since, read (write deviceId since) = some (deviceId, since)

namespace LockRecord

def encode (json : LockJson) (record : LockRecord) : Bytes :=
  json.write record.deviceId.hex record.since

def decode (json : LockJson) (bytes : Bytes) : Option LockRecord := do
  let (deviceId, since) ← json.read bytes
  let deviceId ← DeviceId.fromHex deviceId
  return ⟨deviceId, since⟩

@[simp]
theorem decode_encode (json : LockJson) (record : LockRecord) :
    decode json (encode json record) = some record := by
  simp [decode, encode, json.read_write]

end LockRecord

/-- The record's version after the holder's own last write, and its `since`. -/
structure Held where
  version : Nat
  since : UInt64
  deriving DecidableEq

inductive StoreError
  | conflict
  | unavailable

def corrupt : LnError := .other "device_lock_corrupt"

def unavailable (_ : StoreError) : LnError := .backupUnavailable

/-- A hold a device was given, as it knows it now. -/
structure Hold where
  device : DeviceId
  held : Held
  deriving DecidableEq

inductive Event
  /-- A write at `version` landed, by a call with `hold` or by one that asks for a hold. -/
  | wrote (device : DeviceId) (hold : Option Nat) (version : Nat)
  | deleted (hold : Nat)
  | began (hold : Nat)
  | refreshed (hold : Nat)
  deriving DecidableEq

/-- The stored record with its version, the holds given so far, and the events, newest first. -/
structure World where
  cell : Option (Bytes × Nat)
  holds : List Hold
  log : List Event

/-- What becomes of one request: its answer arrives, only its effect does, or neither. -/
inductive Wire
  | delivered
  | answerLost
  | requestLost

abbrev LockProc := Proc World Wire

namespace World

def start (cell : Option (Bytes × Nat)) : World := ⟨cell, [], []⟩

/-- The store's rule for a write: version zero inserts, version `n` replaces version `n`. -/
def landing (cell : Option (Bytes × Nat)) (value : Bytes) (version : Nat) : Option (Bytes × Nat) :=
  match cell with
  | none => if version = 0 then some (value, 1) else none
  | some (_, stored) =>
    if version ≠ 0 ∧ stored = version then some (value, version + 1) else none

def put (json : LockJson) (hold : Option Nat) (record : LockRecord) (version : Nat)
    (world : World) : Option World :=
  (landing world.cell (record.encode json) version).map fun cell =>
    { world with
      cell := some cell
      log := .wrote record.deviceId hold version :: world.log }

def delete (hold : Nat) (version : Nat) (world : World) : Option World :=
  match world.cell with
  | some (_, stored) =>
    if stored = version then
      some { world with cell := none, log := .deleted hold :: world.log }
    else none
  | none => none

def begin (hold : Hold) (world : World) : World :=
  { world with
    holds := world.holds ++ [hold]
    log := .began world.holds.length :: world.log }

def setVersion (hold : Nat) (version : Nat) (world : World) : World :=
  { world with
    holds := world.holds.modify hold fun known =>
      { known with held := { known.held with version := version } } }

/-- `held.version += 1` on the success of a refresh. -/
def refreshed (hold : Nat) (world : World) : World :=
  { world with
    holds := world.holds.modify hold fun known =>
      { known with held := { known.held with version := known.held.version + 1 } }
    log := .refreshed hold :: world.log }

def since (hold : Nat) (world : World) : List Event :=
  world.log.takeWhile fun event => event ≠ .began hold

end World

/-! ## The calls -/

/-- One conditional request; `accept` is what the caller does with its own hold. -/
def submit {α : Type} (change : World → Option World) (accept : World → World)
    (value : World → α) : LockProc (Except StoreError α) :=
  .act (fun world wire =>
      match wire, change world with
      | .requestLost, _ | _, none => world
      | .answerLost, some landed => landed
      | .delivered, some landed => accept landed)
    (fun world wire =>
      match wire, change world with
      | .delivered, some landed => .done (.ok (value (accept landed)))
      | .delivered, none => .done (.error .conflict)
      | _, _ => .done (.error .unavailable))

def get : LockProc (Except StoreError (Option (Bytes × Nat))) :=
  .look fun world wire =>
    match wire with
    | .delivered => .ok world.cell
    | _ => .error .unavailable

variable (json : LockJson)

/-- The write that asks for a hold, at the version read. -/
def putNew (me : DeviceId) (since : UInt64) (version : Nat) : LockProc (Except StoreError Held) :=
  let held : Held := ⟨version + 1, since⟩
  submit (World.put json none ⟨me, since⟩ version) (World.begin ⟨me, held⟩) fun _ => held

def acquireVersion (me : DeviceId) : Option (Bytes × Nat) → Except LnError Nat
  | none => .ok 0
  | some (bytes, version) =>
    match LockRecord.decode json bytes with
    | none => .error corrupt
    | some record =>
      if record.deviceId ≠ me then .error .activeOnAnotherDevice else .ok version

/-- The tries of `acquire`: a conflict between the read and the write is read again. -/
def acquireTries (me : DeviceId) (now : UInt64) : Nat → LockProc (Except LnError Held)
  | 0 => return .error .activeOnAnotherDevice
  | tries + 1 => do
    match ← get with
    | .error e => return .error (unavailable e)
    | .ok stored =>
      match acquireVersion json me stored with
      | .error e => return .error e
      | .ok version =>
        match ← putNew json me now version with
        | .ok held => return .ok held
        | .error .conflict => acquireTries me now tries
        | .error e => return .error (unavailable e)

def acquire (me : DeviceId) (now : UInt64) : LockProc (Except LnError Held) :=
  acquireTries json me now 2

def takeover (me : DeviceId) (now : UInt64) : LockProc (Except LnError Held) := do
  match ← get with
  | .error e => return .error (unavailable e)
  | .ok stored =>
    match ← putNew json me now ((stored.map Prod.snd).getD 0) with
    | .ok held => return .ok held
    | .error .conflict => return .error .activeOnAnotherDevice
    | .error e => return .error (unavailable e)

variable (hold : Nat)

def rewrite (world : World) : Option World :=
  world.holds[hold]?.bind fun known =>
    world.put json (some hold) ⟨known.device, known.held.since⟩ known.held.version

def putHeld : LockProc (Except StoreError (Option Held)) :=
  submit (rewrite json hold) (World.refreshed hold) fun world =>
    world.holds[hold]?.map Hold.held

def ownVersion (world : World) : Except LnError Nat :=
  match world.cell, world.holds[hold]? with
  | some (bytes, version), some known =>
    match LockRecord.decode json bytes with
    | none => .error corrupt
    | some found =>
      if found.deviceId ≠ known.device then .error .activeOnAnotherDevice else .ok version
  | _, _ => .error .activeOnAnotherDevice

/-- The read after a conflict: a record still ours is adopted into the hold. -/
def adopt : LockProc (Except LnError Unit) :=
  .act (fun world wire =>
      match wire, ownVersion json hold world with
      | .delivered, .ok version => world.setVersion hold version
      | _, _ => world)
    (fun world wire =>
      match wire, ownVersion json hold world with
      | .delivered, .ok _ => .done (.ok ())
      | .delivered, .error e => .done (.error e)
      | _, _ => .done (.error (unavailable .unavailable)))

def refresh : LockProc (Except LnError (Option Held)) := do
  match ← putHeld json hold with
  | .ok held => return .ok held
  | .error .unavailable => return .error (unavailable .unavailable)
  | .error .conflict =>
    match ← adopt json hold with
    | .error e => return .error e
    | .ok _ =>
      match ← putHeld json hold with
      | .ok held => return .ok held
      | .error .conflict => return .error .activeOnAnotherDevice
      | .error e => return .error (unavailable e)

def erase (world : World) : Option World :=
  world.holds[hold]?.bind fun known => world.delete hold known.held.version

def release : LockProc (Except LnError Unit) := do
  match ← submit (erase hold) id fun _ => () with
  | .ok _ | .error .conflict => return .ok ()
  | .error e => return .error (unavailable e)

inductive Call
  | acquire (me : DeviceId) (now : UInt64)
  | takeover (me : DeviceId) (now : UInt64)
  | refresh (hold : Nat)
  | release (hold : Nat)

def serve : Call → LockProc Unit
  | .acquire me now => do let _ ← acquire json me now
  | .takeover me now => do let _ ← takeover json me now
  | .refresh hold => do let _ ← refresh json hold
  | .release hold => do let _ ← release hold

/-- Calls begun, answered and lost in any order. -/
abbrev LockRun := List (Move Call Wire)

def worldAfter (cell : Option (Bytes × Nat)) (moves : LockRun) : World :=
  Pool.sharedAfter (serve json) (World.start cell) moves

/-! ## What one action can do -/

/-- Everything one action of a call can do to the record and the holds. -/
inductive LockStep : World → World → Prop
  | stutters (world : World) : LockStep world world
  | adopts {world : World} {hold : Nat} {known : Hold} {bytes : Bytes} {version : Nat}
      {found : LockRecord} (holding : world.holds[hold]? = some known)
      (stored : world.cell = some (bytes, version))
      (decoded : LockRecord.decode json bytes = some found)
      (own : found.deviceId = known.device) : LockStep world (world.setVersion hold version)
  | lands {world landed : World} {me : DeviceId} {since : UInt64} {version : Nat}
      (put : world.put json none ⟨me, since⟩ version = some landed) : LockStep world landed
  | begins {world landed : World} {me : DeviceId} {since : UInt64} {version : Nat}
      (put : world.put json none ⟨me, since⟩ version = some landed) :
      LockStep world (landed.begin ⟨me, ⟨version + 1, since⟩⟩)
  | rewrites {world landed : World} {hold : Nat} (put : rewrite json hold world = some landed) :
      LockStep world landed
  | refreshes {world landed : World} {hold : Nat} (put : rewrite json hold world = some landed) :
      LockStep world (landed.refreshed hold)
  | erases {world erased : World} {hold : Nat} (deleted : erase hold world = some erased) :
      LockStep world erased

variable {json}

theorem keeps_submit {α : Type} {change : World → Option World} {accept : World → World}
    {value : World → α}
    (landed : ∀ world after, change world = some after → LockStep json world after)
    (accepted : ∀ world after, change world = some after → LockStep json world (accept after)) :
    (submit change accept value).Keeps (LockStep json) := by
  intro world wire
  rcases outcome : change world with _ | after
  · cases wire <;> simp only [outcome] <;> exact ⟨.stutters world, trivial⟩
  cases wire with
  | delivered => simpa only [outcome] using ⟨accepted world after outcome, trivial⟩
  | answerLost => simpa only [outcome] using ⟨landed world after outcome, trivial⟩
  | requestLost => exact ⟨.stutters world, trivial⟩

variable (me : DeviceId)

theorem keeps_putNew (since : UInt64) (version : Nat) :
    (putNew json me since version).Keeps (LockStep json) := by
  unfold putNew
  apply keeps_submit
  · exact fun world landed put => .lands put
  · exact fun world landed put => .begins put

variable {hold version : Nat} {world : World}

theorem ownVersion_ok (own : ownVersion json hold world = .ok version) :
    ∃ known bytes found, world.holds[hold]? = some known ∧ world.cell = some (bytes, version) ∧
      LockRecord.decode json bytes = some found ∧ found.deviceId = known.device := by
  unfold ownVersion at own
  split at own
  next bytes stored known cell holding =>
    split at own
    · cases own
    next found decoded =>
    split at own
    · cases own
    next same =>
    cases own
    exact ⟨known, bytes, found, holding, cell, decoded, not_not.mp same⟩
  · cases own

theorem keeps_adopt (hold : Nat) : (adopt json hold).Keeps (LockStep json) := by
  intro world wire
  rcases own : ownVersion json hold world with e | version
  · cases wire <;> simp only [own] <;> exact ⟨.stutters world, trivial⟩
  cases wire with
  | delivered =>
    obtain ⟨known, bytes, found, holding, stored, decoded, same⟩ := ownVersion_ok own
    simp only [own]
    exact ⟨.adopts holding stored decoded same, trivial⟩
  | answerLost | requestLost => exact ⟨.stutters world, trivial⟩

theorem keeps_acquireTries (now : UInt64) (tries : Nat) :
    (acquireTries json me now tries).Keeps (LockStep json) := by
  induction tries with
  | zero => trivial
  | succ tries ih =>
    refine keeps_bind (keeps_look LockStep.stutters _) fun read => ?_
    rcases read with e | stored
    · trivial
    dsimp only
    split
    · trivial
    refine keeps_bind (keeps_putNew me now _) fun wrote => ?_
    rcases wrote with (_ | _) | held
    · exact ih
    · trivial
    · trivial

theorem keeps_takeover (now : UInt64) : (takeover json me now).Keeps (LockStep json) := by
  refine keeps_bind (keeps_look LockStep.stutters _) fun read => ?_
  rcases read with e | stored
  · trivial
  refine keeps_bind (keeps_putNew me now _) fun wrote => ?_
  rcases wrote with (_ | _) | held <;> trivial

theorem keeps_refresh (hold : Nat) : (refresh json hold).Keeps (LockStep json) := by
  refine keeps_bind ((keeps_submit (fun _ _ => .rewrites) fun _ _ => .refreshes)) fun wrote => ?_
  rcases wrote with (_ | _) | held
  · refine keeps_bind (keeps_adopt hold) fun adopted => ?_
    rcases adopted with e | _
    · trivial
    refine keeps_bind ((keeps_submit (fun _ _ => .rewrites) fun _ _ => .refreshes)) fun rewrote =>
      ?_
    rcases rewrote with (_ | _) | held <;> trivial
  · trivial
  · trivial

theorem keeps_release (hold : Nat) : (release hold).Keeps (LockStep json) := by
  refine keeps_bind (keeps_submit (fun _ _ => .erases) fun _ _ => .erases) fun deleted => ?_
  rcases deleted with (_ | _) | done <;> trivial

theorem keeps_serve (call : Call) : (serve json call).Keeps (LockStep json) := by
  cases call with
  | acquire me now => exact keeps_bind (keeps_acquireTries me now 2) fun _ => trivial
  | takeover me now => exact keeps_bind (keeps_takeover me now) fun _ => trivial
  | refresh hold => exact keeps_bind (keeps_refresh hold) fun _ => trivial
  | release hold => exact keeps_bind (keeps_release hold) fun _ => trivial

variable {record : LockRecord} {erased landed : World}

namespace World

theorem put_eq_some {hold : Option Nat} (put : world.put json hold record version = some landed) :
    (version = 0 ∧ world.cell = none ∨ 0 < version ∧ ∃ bytes, world.cell = some
      (bytes, version)) ∧ landed = ⟨some (record.encode json, version + 1), world.holds,
        .wrote record.deviceId hold version :: world.log⟩ := by
  obtain ⟨cell, lands, rfl⟩ := map_eq_some_iff.mp put
  unfold landing at lands
  split at lands
  next absent =>
    split at lands
    next zero =>
      cases lands
      exact ⟨.inl ⟨zero, absent⟩, by simp [zero]⟩
    · cases lands
  next bytes stored found =>
  split at lands
  next fits =>
    obtain ⟨positive, rfl⟩ := fits
    cases lands
    exact ⟨.inr ⟨Nat.pos_of_ne_zero positive, bytes, found⟩, rfl⟩
  · cases lands

theorem delete_eq_some (deleted : world.delete hold version = some erased) :
    (∃ bytes, world.cell = some (bytes, version)) ∧
      erased = ⟨none, world.holds, .deleted hold :: world.log⟩ := by
  unfold delete at deleted
  split at deleted
  next bytes stored found =>
    split at deleted
    next same =>
      cases same
      cases deleted
      exact ⟨⟨bytes, found⟩, rfl⟩
    · cases deleted
  · cases deleted

end World

/-! ## Overtaken holds -/

/-- A landed write that keeps versions climbing and is not another hold's of the same device. -/
def Event.Climbs (device : DeviceId) (hold : Nat) : Event → Prop
  | .wrote writer other version => version ≠ 0 ∧ (writer = device → other = some hold)
  | _ => True

instance (device : DeviceId) (hold : Nat) : DecidablePred (Event.Climbs device hold) := fun event =>
  match event with
  | .wrote writer other version =>
    inferInstanceAs (Decidable (version ≠ 0 ∧ (writer = device → other = some hold)))
  | .deleted _ | .began _ | .refreshed _ => isTrue trivial

def Event.ByOther (device : DeviceId) : Event → Prop
  | .wrote writer _ _ => writer ≠ device
  | _ => False

instance (device : DeviceId) : DecidablePred (Event.ByOther device) := fun event =>
  match event with
  | .wrote writer _ _ => inferInstanceAs (Decidable (writer ≠ device))
  | .deleted _ | .began _ | .refreshed _ => isFalse id

variable {bytes : Bytes} {event : Event} {fresh known : Hold} {i : Nat}
  {cell : Option (Bytes × Nat)} {writer : Option Nat} {after : World}

namespace World

section

variable (world : World) (hold : Nat) (known : Hold)

/-- Since the hold began, only climbing writes landed. -/
def Climbing : Prop :=
  ∀ event ∈ world.since hold, event.Climbs known.device hold

def Overtaken : Prop :=
  ∃ event ∈ world.since hold, event.ByOther known.device

end

/-- Where a hold stands against what is stored. -/
def Behind (json : LockJson) (world : World) (hold : Nat) (known : Hold) : Prop :=
  ∀ bytes version, world.cell = some (bytes, version) → known.held.version ≤ version ∧
      (world.Overtaken hold known → known.held.version < version ∧
          ∃ found, LockRecord.decode json bytes = some found ∧ found.deviceId ≠ known.device)

structure Fenced (json : LockJson) (world : World) : Prop where
  cellPositive : ∀ bytes version, world.cell = some (bytes, version) → 0 < version
  holdPositive :
    ∀ (hold : Nat) (known : Hold), world.holds[hold]? = some known → 0 < known.held.version
  beganBelow : ∀ hold, Event.began hold ∈ world.log → hold < world.holds.length
  behind : ∀ (hold : Nat) (known : Hold), world.holds[hold]? = some known →
    world.Climbing hold known → world.Behind json hold known

theorem fenced_start (pos : ∀ bytes version, cell = some (bytes, version) → 0 < version) :
    Fenced json (start cell) where
  cellPositive := pos
  holdPositive hold known holding := by cases holding
  beganBelow hold member := by cases member
  behind hold known holding := by cases holding

section

variable (logged : after.log = event :: world.log)
include logged

theorem since_cons (other : event ≠ .began hold) :
    after.since hold = event :: world.since hold := by
  simp [since, logged, other]

theorem climbing_tail (other : event ≠ .began hold) (climbing : after.Climbing hold known) :
    event.Climbs known.device hold ∧ world.Climbing hold known := by
  unfold Climbing at climbing
  rw [since_cons logged other] at climbing
  exact ⟨climbing event mem_cons_self, fun old mem => climbing old (mem_cons_of_mem event mem)⟩

theorem overtaken_cons (other : event ≠ .began hold) :
    after.Overtaken hold known ↔ event.ByOther known.device ∨ world.Overtaken hold known := by
  unfold Overtaken
  rw [since_cons logged other]
  simp

end

theorem getElem?_modified (change : Nat → Nat) {holds : List Hold}
    (holding : (holds.modify hold fun known =>
      { known with held := { known.held with version := change known.held.version } })[i]? =
        some known) :
    ∃ old, holds[i]? = some old ∧ known.device = old.device ∧
      known.held.version = if hold = i then change old.held.version else old.held.version := by
  rw [getElem?_modify] at holding
  obtain ⟨old, found, rfl⟩ := map_eq_some_iff.mp holding
  refine ⟨old, found, ?_⟩
  split <;> exact ⟨rfl, rfl⟩

/-- Two worlds with the same events and two views of one hold by the same device. -/
theorem climbing_congr {old : Hold}
    (logged : after.log = world.log) (device : known.device = old.device) :
    (after.Climbing hold known ↔ world.Climbing hold old) ∧
      (after.Overtaken hold known ↔ world.Overtaken hold old) := by
  simp only [Climbing, Overtaken, since, logged, device, and_self]

theorem getElem?_begin (holding : (world.begin fresh).holds[hold]? = some known) :
    hold < world.holds.length ∧ world.holds[hold]? = some known ∨
      hold = world.holds.length ∧ known = fresh := by
  simp only [begin, getElem?_append] at holding
  split at holding
  next old => exact .inl ⟨old, holding⟩
  next new =>
  have last : hold - world.holds.length = 0 := by
    have bound := (List.getElem?_eq_some_iff.mp holding).1
    simpa using bound
  rw [last] at holding
  cases holding
  exact .inr ⟨by omega, rfl⟩

section

variable (fenced : Fenced json world)
include fenced

section

variable (holding : world.holds[hold]? = some known) (climbing : world.Climbing hold known)
include holding climbing

/-- An overtaken hold is behind, so a write at its version conflicts. -/
theorem Fenced.rewrite_refused (put : rewrite json hold world = some landed) :
    ¬ world.Overtaken hold known := by
  intro overtaken
  simp only [rewrite, holding, bind_some] at put
  obtain ⟨⟨zero, _⟩ | ⟨_, bytes, stored⟩, _⟩ := put_eq_some put
  · have positive := fenced.holdPositive hold known holding
    omega
  have behind := ((fenced.behind hold known holding climbing bytes _ stored).2 overtaken).1
  omega

theorem Fenced.erase_refused (deleted : erase hold world = some erased) :
    ¬ world.Overtaken hold known := by
  intro overtaken
  simp only [erase, holding, bind_some] at deleted
  obtain ⟨⟨bytes, stored⟩, _⟩ := delete_eq_some deleted
  have behind := ((fenced.behind hold known holding climbing bytes _ stored).2 overtaken).1
  omega

end

theorem Fenced.behind_put (put : world.put json writer record version = some landed)
    (holding : world.holds[hold]? = some known)
    (own : writer = some hold → version = known.held.version)
    (climbing : landed.Climbing hold known) : landed.Behind json hold known := by
  obtain ⟨stored, rfl⟩ := put_eq_some put
  obtain ⟨⟨positive, sameHold⟩, before⟩ := climbing_tail rfl (by simp) climbing
  obtain ⟨zero, _⟩ | ⟨_, bytes, found⟩ := stored
  · exact absurd zero positive
  have behind := fenced.behind hold known holding before bytes version found
  intro bytes' version' cell
  cases cell
  refine ⟨by omega, fun overtaken => ?_⟩
  rw [overtaken_cons rfl (by simp)] at overtaken
  by_cases same : record.deviceId = known.device
  · -- The hold's own write lands only at its own version, so it was not overtaken before.
    rcases overtaken with byOther | before
    · exact absurd same byOther
    have ahead := (behind.2 before).1
    have atOwn := own (sameHold same)
    omega
  · exact ⟨by omega, record, LockRecord.decode_encode json record, same⟩

theorem Fenced.adopts {owner : Hold}
    {found : LockRecord} (holding : world.holds[hold]? = some owner)
    (stored : world.cell = some (bytes, version))
    (decoded : LockRecord.decode json bytes = some found)
    (own : found.deviceId = owner.device) : Fenced json (world.setVersion hold version) where
  cellPositive := fenced.cellPositive
  holdPositive i known holds := by
    obtain ⟨old, before, _, held⟩ := getElem?_modified (fun _ => version) holds
    rw [held]
    split
    · exact fenced.cellPositive bytes version stored
    · exact fenced.holdPositive i old before
  beganBelow i member := by simpa [setVersion] using fenced.beganBelow i member
  behind i known holds climbing := by
    obtain ⟨old, before, device, held⟩ := getElem?_modified (fun _ => version) holds
    have same : ((world.setVersion hold version).Climbing i known ↔ world.Climbing i old) ∧
        ((world.setVersion hold version).Overtaken i known ↔ world.Overtaken i old) :=
      climbing_congr rfl device
    have behind := fenced.behind i old before (same.1.mp climbing)
    intro bytes' version' cell
    obtain ⟨notAhead, further⟩ := behind bytes' version' cell
    rw [held, same.2, device]
    split
    next here =>
      -- A record that is the holder's own is not one an overtaken hold can find.
      subst here
      cases holding.symm.trans before
      cases stored.symm.trans cell
      refine ⟨Nat.le_refl _, fun overtaken => ?_⟩
      obtain ⟨_, other, otherDecoded, ne⟩ := further overtaken
      cases decoded.symm.trans otherDecoded
      exact absurd own ne
    · exact ⟨notAhead, further⟩

theorem Fenced.puts (put : world.put json writer record version = some landed)
    (own : ∀ (hold : Nat) (known : Hold), world.holds[hold]? = some known →
      writer = some hold → version = known.held.version) : Fenced json landed := by
  obtain ⟨_, form⟩ := put_eq_some put
  refine ⟨?_, ?_, ?_, ?_⟩
  · intro bytes stored cell
    rw [form] at cell
    cases cell
    exact succ_pos version
  · rw [form]
    exact fenced.holdPositive
  · intro hold mem
    rw [form] at mem ⊢
    simp only [mem_cons, reduceCtorEq, false_or] at mem
    exact fenced.beganBelow hold mem
  intro hold known holding
  have before : world.holds[hold]? = some known := by rwa [form] at holding
  exact fenced.behind_put put before (own hold known before)

theorem Fenced.begins
    (stored : world.cell = some (bytes, fresh.held.version)) : Fenced json (world.begin fresh) := by
  refine ⟨fenced.cellPositive, ?_, ?_, ?_⟩
  · intro hold known holding
    rcases getElem?_begin holding with ⟨_, old⟩ | ⟨_, rfl⟩
    · exact fenced.holdPositive hold known old
    · exact fenced.cellPositive bytes _ stored
  · intro hold mem
    simp only [begin, length_append, length_singleton, mem_cons, Event.began.injEq] at mem ⊢
    rcases mem with rfl | old
    · omega
    have below := fenced.beganBelow hold old
    omega
  intro hold known holding climbing bytes' version cell
  rcases getElem?_begin holding with ⟨below, old⟩ | ⟨rfl, rfl⟩
  · have other : Event.began world.holds.length ≠ .began hold := by
      simp only [ne_eq, Event.began.injEq]
      omega
    have before := (climbing_tail rfl other climbing).2
    have silent : ¬ (Event.began world.holds.length).ByOther known.device := id
    rw [overtaken_cons rfl other, or_iff_right silent]
    exact fenced.behind hold known old before bytes' version cell
  cases stored.symm.trans cell
  refine ⟨Nat.le_refl _, fun overtaken => ?_⟩
  obtain ⟨event, mem, _⟩ := overtaken
  simp [since, begin] at mem

section

variable (put : rewrite json hold world = some landed)
include put

theorem Fenced.rewrites : Fenced json landed := by
  obtain ⟨owner, holding, put⟩ := bind_eq_some_iff.mp put
  refine fenced.puts put fun other known found same => ?_
  cases same
  cases holding.symm.trans found
  rfl

/-- A hold whose rewrite landed is the newest writer. -/
theorem Fenced.current_of_rewrite
    (holding : landed.holds[hold]? = some known) (climbing : landed.Climbing hold known) :
    ¬ landed.Overtaken hold known ∧
      ∃ bytes, landed.cell = some (bytes, known.held.version + 1) := by
  obtain ⟨owner, found, wrote⟩ := bind_eq_some_iff.mp put
  obtain ⟨_, rfl⟩ := put_eq_some wrote
  cases found.symm.trans holding
  have before := (climbing_tail rfl (by simp) climbing).2
  have own : ¬ (Event.wrote known.device (some hold) known.held.version).ByOther known.device :=
    fun ne => ne rfl
  rw [overtaken_cons rfl (by simp), or_iff_right own]
  exact ⟨fenced.rewrite_refused found before put, _, rfl⟩

theorem Fenced.refreshes : Fenced json (landed.refreshed hold) := by
  have after := fenced.rewrites put
  refine ⟨after.cellPositive, ?_, ?_, ?_⟩
  · intro i known holds
    obtain ⟨old, before, _, held⟩ := getElem?_modified (· + 1) holds
    have positive := after.holdPositive i old before
    rw [held]
    split <;> omega
  · intro i mem
    simp only [refreshed, mem_cons, reduceCtorEq, false_or, length_modify] at mem ⊢
    exact after.beganBelow i mem
  intro i known holds climbing bytes version cell
  obtain ⟨old, before, device, held⟩ := getElem?_modified (· + 1) holds
  have other : Event.refreshed hold ≠ .began i := by simp
  have silent : ¬ (Event.refreshed hold).ByOther known.device := id
  have same : (landed.Climbing i known ↔ landed.Climbing i old) ∧
      (landed.Overtaken i known ↔ landed.Overtaken i old) := climbing_congr rfl device
  have climbed := same.1.mp (climbing_tail rfl other climbing).2
  obtain ⟨notAhead, further⟩ := after.behind i old before climbed bytes version cell
  rw [overtaken_cons rfl other, or_iff_right silent, same.2, held, device]
  split
  next here =>
    -- The rewrite landed, so nobody had overtaken the hold.
    subst here
    obtain ⟨current, _, stored⟩ := fenced.current_of_rewrite put before climbed
    cases stored.symm.trans cell
    exact ⟨Nat.le_refl _, fun overtaken => absurd overtaken current⟩
  · exact ⟨notAhead, further⟩

end

theorem Fenced.erases (deleted : erase hold world = some erased) : Fenced json erased := by
  obtain ⟨owner, holding, deleted⟩ := bind_eq_some_iff.mp deleted
  obtain ⟨_, rfl⟩ := delete_eq_some deleted
  refine ⟨?_, fenced.holdPositive, ?_, ?_⟩
  · intro bytes version cell
    cases cell
  · intro i mem
    simp only [mem_cons, reduceCtorEq, false_or] at mem
    exact fenced.beganBelow i mem
  intro i known holds climbing bytes version cell
  cases cell

theorem Fenced.step (step : LockStep json world after) : Fenced json after := by
  cases step with
  | stutters => exact fenced
  | adopts holding stored decoded own => exact fenced.adopts holding stored decoded own
  | lands put => exact fenced.puts put fun _ _ _ impossible => by cases impossible
  | begins put =>
    have landed := fenced.puts put fun _ _ _ impossible => by cases impossible
    obtain ⟨_, rfl⟩ := put_eq_some put
    exact landed.begins rfl
  | rewrites put => exact fenced.rewrites put
  | refreshes put => exact fenced.refreshes put
  | erases deleted => exact fenced.erases deleted

end

theorem fenced_after
    (pos : ∀ bytes version, cell = some (bytes, version) → 0 < version) (moves : LockRun) :
    Fenced json (worldAfter json cell moves) := by
  have reached : Relation.ReflTransGen (LockStep json) (start cell) (worldAfter json cell moves) :=
    related_between LockStep.stutters keeps_serve (start cell) [] moves
  generalize worldAfter json cell moves = world at reached
  induction reached with
  | refl => exact fenced_start pos
  | tail _ step fenced => exact fenced.step step

end World

/-- An action of a call that uses `hold`: a write, a successful refresh or a deletion. -/
def Event.Uses (hold : Nat) : Event → Prop
  | .wrote _ writer _ => writer = some hold
  | .deleted other | .refreshed other => other = hold
  | .began _ => False

/-- An event that uses a hold comes from a write or a deletion at the hold's version. -/
theorem LockStep.news (step : LockStep json world after) :
    ∃ news, after.log = news ++ world.log ∧ ∀ event ∈ news, ∀ hold, event.Uses hold →
      (∃ landed, rewrite json hold world = some landed) ∨
        ∃ erased, erase hold world = some erased := by
  cases step with
  | stutters | adopts => exact ⟨[], rfl, nofun⟩
  | @lands _ me _ version put =>
    obtain ⟨_, rfl⟩ := World.put_eq_some put
    refine ⟨[.wrote me none version], rfl, fun event mem hold uses => ?_⟩
    cases mem_singleton.mp mem
    cases uses
  | @begins _ me _ version put =>
    obtain ⟨_, rfl⟩ := World.put_eq_some put
    refine ⟨[.began world.holds.length, .wrote me none version], rfl, fun event mem hold uses => ?_⟩
    rcases mem_pair.mp mem with rfl | rfl <;> cases uses
  | @rewrites _ writer put =>
    obtain ⟨owner, _, wrote⟩ := bind_eq_some_iff.mp put
    obtain ⟨_, rfl⟩ := World.put_eq_some wrote
    refine ⟨[.wrote owner.device (some writer) owner.held.version], rfl,
      fun event mem hold uses => ?_⟩
    cases mem_singleton.mp mem
    cases uses
    exact .inl ⟨_, put⟩
  | @refreshes _ writer put =>
    obtain ⟨owner, _, wrote⟩ := bind_eq_some_iff.mp put
    obtain ⟨_, rfl⟩ := World.put_eq_some wrote
    refine ⟨[.refreshed writer, .wrote owner.device (some writer) owner.held.version], rfl,
      fun event mem hold uses => ?_⟩
    rcases mem_pair.mp mem with rfl | rfl <;> cases uses <;> exact .inl ⟨_, put⟩
  | @erases _ writer deleted =>
    obtain ⟨owner, _, gone⟩ := bind_eq_some_iff.mp deleted
    obtain ⟨_, rfl⟩ := World.delete_eq_some gone
    refine ⟨[.deleted writer], rfl, fun event mem hold uses => ?_⟩
    cases mem_singleton.mp mem
    cases uses
    exact .inr ⟨_, deleted⟩

/-! ## Stale holds -/

/-- A hold that another device has overtaken has no further effect, provided that since it began the
record was not inserted anew and its device landed no write outside the hold. -/
theorem stale_hold_refused (json : LockJson) (cell : Option (Bytes × Nat))
    (positive : ∀ bytes version, cell = some (bytes, version) → 0 < version) (moves : LockRun)
    (step : Move Call Wire) (hold : Nat) (known : Hold)
    (holding : (worldAfter json cell moves).holds[hold]? = some known)
    (climbing : (worldAfter json cell moves).Climbing hold known)
    (overtaken : (worldAfter json cell moves).Overtaken hold known) (fresh : List Event)
    (logged : (worldAfter json cell (moves ++ [step])).log =
      fresh ++ (worldAfter json cell moves).log) : ∀ event ∈ fresh, ¬ event.Uses hold := by
  have fenced : World.Fenced json (worldAfter json cell moves) :=
    World.fenced_after positive moves
  have moved : LockStep json (worldAfter json cell moves)
    (worldAfter json cell (moves ++ [step])) :=
    related_last LockStep.stutters keeps_serve (World.start cell) moves step
  obtain ⟨news, found, used⟩ := moved.news
  cases append_cancel_right (logged.symm.trans found)
  intro event mem uses
  rcases used event mem hold uses with ⟨landed, put⟩ | ⟨erased, deleted⟩
  · exact fenced.rewrite_refused holding climbing put overtaken
  · exact fenced.erase_refused holding climbing deleted overtaken

namespace LockSample

def deviceA : DeviceId := ⟨List.replicate 16 10, rfl⟩

def deviceB : DeviceId := ⟨List.replicate 16 11, rfl⟩

def alone (index actions : Nat) (call : Call) : LockRun :=
  .begin call :: List.replicate actions (.act index .delivered)

def taken : LockRun :=
  alone 0 2 (.acquire deviceA 100) ++ alone 1 2 (.takeover deviceB 200)

def refused : LockRun :=
  taken ++ alone 2 1 (.refresh 0) ++ [.begin (.refresh 1)]

/-- B stops cleanly and starts again. -/
def restarted : LockRun :=
  taken ++ alone 2 1 (.release 1) ++ alone 3 2 (.acquire deviceB 300)

def unary : List Nat → Bytes
  | [] => []
  | first :: rest => List.replicate first 0 ++ 1 :: unary rest

def readUnary (count : Nat) : Bytes → List Nat
  | [] => []
  | byte :: rest => if byte = 0 then readUnary (count + 1) rest else count :: readUnary 0 rest

theorem readUnary_replicate (count first : Nat) (rest : Bytes) :
    readUnary count (List.replicate first 0 ++ 1 :: rest) =
      (count + first) :: readUnary 0 rest := by
  induction first generalizing count with
  | zero => simp [readUnary]
  | succ first ih =>
    simp only [replicate_succ, cons_append, readUnary, if_true, ih]
    congr 1
    omega

theorem readUnary_unary (numbers : List Nat) : readUnary 0 (unary numbers) = numbers := by
  induction numbers with
  | nil => rfl
  | cons first rest ih => simp [unary, readUnary_replicate, ih]

/-- A text that gives both fields back. -/
def unaryJson : LockJson where
  write deviceId since := unary (since.toNat :: deviceId.toList.map Char.toNat)
  read bytes :=
    match readUnary 0 bytes with
    | [] => none
    | since :: chars => some (String.ofList (chars.map Char.ofNat), UInt64.ofNat since)
  read_write deviceId since := by
    simp [readUnary_unary, Function.comp_def, Char.ofNat_toNat]

theorem taken_pool (json : LockJson) : Pool.run (serve json) ⟨.start none, []⟩ taken =
      ⟨⟨some (LockRecord.encode json ⟨deviceB, 200⟩, 2), [⟨deviceA, ⟨1, 100⟩⟩, ⟨deviceB, ⟨2, 200⟩⟩],
        [.began 1, .wrote deviceB none 1, .began 0, .wrote deviceA none 0]⟩,
          [.done (), .done ()]⟩ := rfl

theorem refused_world (json : LockJson) : worldAfter json none refused =
      ⟨some (LockRecord.encode json ⟨deviceB, 200⟩, 2), [⟨deviceA, ⟨1, 100⟩⟩, ⟨deviceB, ⟨2, 200⟩⟩],
        [.began 1, .wrote deviceB none 1, .began 0, .wrote deviceA none 0]⟩ := by
  rw [worldAfter, sharedAfter, refused, append_assoc, run_append, taken_pool]
  rfl

end LockSample

open LockSample

theorem stale_hold_refused_taken : Nonempty LockJson ∧ ∀ json : LockJson,
      (worldAfter json none (refused ++ [.act 3 .delivered])).log =
          [.refreshed 1, .wrote deviceB (some 1) 2] ++ (worldAfter json none refused).log ∧
        ∀ event ∈ [Event.refreshed 1, .wrote deviceB (some 1) 2], ¬ event.Uses 0 := by
  refine ⟨⟨unaryJson⟩, fun json => ?_⟩
  have next : (worldAfter json none (refused ++ [.act 3 .delivered])).log =
      [.refreshed 1, .wrote deviceB (some 1) 2] ++ (worldAfter json none refused).log := by
    rw [refused_world, worldAfter, sharedAfter, refused, append_assoc, append_assoc,
      run_append, taken_pool]
    rfl
  have climbing : (worldAfter json none refused).Climbing 0 ⟨deviceA, ⟨1, 100⟩⟩ := by
    rw [refused_world, World.Climbing, World.since]
    dsimp only
    decide
  have overtaken : (worldAfter json none refused).Overtaken 0 ⟨deviceA, ⟨1, 100⟩⟩ := by
    rw [refused_world, World.Overtaken, World.since]
    dsimp only
    decide
  exact ⟨next, stale_hold_refused json none nofun refused (.act 3 .delivered) 0
    ⟨deviceA, ⟨1, 100⟩⟩ (by rw [refused_world]; rfl) climbing overtaken _ next⟩

/-- After a clean stop and restart of the device that took over, the overtaken hold refreshes. -/
theorem stale_hold_succeeds :
    (worldAfter unaryJson none restarted).holds[0]? = some ⟨deviceA, ⟨1, 100⟩⟩ ∧
      (worldAfter unaryJson none restarted).Overtaken 0 ⟨deviceA, ⟨1, 100⟩⟩ ∧
      (worldAfter unaryJson none (restarted ++ LockSample.alone 4 1 (.refresh 0))).log =
        [.refreshed 0, .wrote deviceA (some 0) 1] ++ (worldAfter unaryJson none restarted).log ∧
      (worldAfter unaryJson none (restarted ++ LockSample.alone 4 1 (.release 0))).log =
        [.deleted 0] ++ (worldAfter unaryJson none restarted).log := by
  refine ⟨rfl, ?_, rfl, rfl⟩
  rw [World.Overtaken, World.since]
  decide

end Fortis.Lightning
