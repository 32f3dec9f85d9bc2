import Fortis.Edge.WatchJobs

/-!
# What the watchtower sends

The work on a job, by the calls it makes of the chain readers and the store.

A run logs every call with its answer.  A transaction is sent only when the answers before it permit
it, and a job is written back as done only after its spend was reported confirmed, as sent only
after it was, in this work or an earlier one.
-/

namespace Fortis.Edge.Tower

open Fortis.Core Lib List

abbrev Past := List (Event tower)

open TowerM

/-! ## What permits a call -/

def Told (past : Past) (made : TowerCall) (answer : made.Answer) : Prop :=
  (⟨made, answer⟩ : Event tower) ∈ past

variable {made : TowerCall}

theorem Told.later {past after : Past} {answer : made.Answer}
    (told : Told past made answer) (grown : past ⊆ after) : Told after made answer := grown told

section Permits

variable (lib : BitcoinLib) (job : WatchJob)

def IsVariant (tx : Transaction) : Prop := ∃ variant ∈ job.variants, decode lib variant = .ok tx

variable (past : Past)

/-- The HTLC output was reported with the confirmations its match asks for. -/
def Deep : Prop :=
  ∃ out m, Told past (.txout job.chain job.htlc.1 job.htlc.2) (.ok (some out)) ∧
    Told past (.getMatch job.matchId) (some m) ∧ confsNeeded m job.chain ≤ out.confirmations

/-- A spend of the HTLC output was reported that reveals the match's preimage. -/
def PhoneSent : Prop :=
  ∃ m hashlock spenderHex tx outpoint, Told past (.getMatch job.matchId) (some m) ∧
    m.hashlock.bind hex32 = some hashlock ∧
    Told past (.spendingTxHex .btc job.htlc.1 job.htlc.2) (.ok (some spenderHex)) ∧
    parseOutpoint job.htlc = .ok outpoint ∧ decode lib spenderHex = .ok tx ∧
    (revealedBy lib tx outpoint hashlock).isSome

def Resendable : Prop := job.sentPrevout.isSome ∨ PhoneSent lib job past

/-- The chain took a transaction of this job. -/
def Accepted : Prop :=
  ∃ txHex txid, Told past (.broadcast job.chain txHex) (.ok txid)

/-- The HTLC output as it was reported, or as the job recorded it when it sent. -/
def Spends (out : TxOutInfo) : Prop :=
  Told past (.txout job.chain job.htlc.1 job.htlc.2) (.ok (some out)) ∨
    job.sentPrevout = some (out.valueSat, out.scriptpubkeyHex)

/-- The variant at `index`, completed with its own valid signature and a preimage. -/
structure CompletedAt (past : Past) (witnessScriptHex : String) (sigsHex : List String)
    (index : Nat) (preimage : Fixed 32) (tx : Transaction) : Prop where
  finished : ∃ unsigned sig pubkey script, job.variants[index]?.bind lib.fromHex = some unsigned ∧
      sigsHex[index]?.bind hexDecode = some sig ∧ hexDecode witnessScriptHex = some script ∧
      scriptHashlock script = some (lib.sha256 preimage.val) ∧
      tx = unsigned.setWitness 0 (redeemWitness sig pubkey preimage script)
  covered : ∃ out script variant, Spends job past out ∧
    hexDecode out.scriptpubkeyHex = some script ∧
    signatureCovers lib tx ⟨out.valueSat, script⟩ variant = true

/-- A spend of the job that may go out at `now`, by its kind. -/
def Due (now : Nat) (past : Past) (tx : Transaction) : Prop :=
  match job.kind with
  | .refund => job.notBefore ≤ now ∧ IsVariant lib job tx
  | .redeem => (Deep job past ∨ Resendable lib job past) ∧ IsVariant lib job tx
  | .waitingRedeem _ witnessScriptHex sigsHex =>
    ∃ index preimage, CompletedAt lib job past witnessScriptHex sigsHex index preimage tx

/-- What the work on a job may call after these calls. -/
def Allowed (now : Nat) (past : Past) : TowerCall → Prop
  | .broadcast chain txHex => chain = job.chain ∧ ∃ tx, txHex = lib.toHex tx ∧
      Due lib job now past tx
  | .putWatch written => written.post = job.post ∧ (written.done = true → job.done = true ∨
        Told past (.spendConfirmed job.chain job.htlc.1 job.htlc.2) (.ok true)) ∧
      (written.sentPrevout.isSome →
        job.sentPrevout.isSome ∨ Accepted job past ∨ PhoneSent lib job past)
  | _ => True

end Permits

section Work

variable {lib : BitcoinLib} {job : WatchJob} {past after : Past}

theorem PhoneSent.later (sent : PhoneSent lib job past) (grown : past ⊆ after) :
    PhoneSent lib job after := by
  obtain ⟨m, hashlock, spenderHex, tx, outpoint, found, locked, spent, rest⟩ := sent
  exact ⟨m, hashlock, spenderHex, tx, outpoint, found.later grown, locked, spent.later grown, rest⟩

theorem Resendable.later (resendable : Resendable lib job past) (grown : past ⊆ after) :
    Resendable lib job after := resendable.imp_right fun sent => sent.later grown

theorem Deep.later (deep : Deep job past) (grown : past ⊆ after) : Deep job after := by
  obtain ⟨out, m, reported, found, enough⟩ := deep
  exact ⟨out, m, reported.later grown, found.later grown, enough⟩

theorem Spends.later {out : TxOutInfo} (spends : Spends job past out) (grown : past ⊆ after) :
    Spends job after out := spends.imp_left fun reported => reported.later grown

variable {tx : Transaction}

theorem Due.later {now : Nat} (due : Due lib job now past tx)
    (grown : past ⊆ after) : Due lib job now after tx := by
  unfold Due at due ⊢
  cases kind : job.kind with
  | refund =>
    rw [kind] at due
    exact due
  | redeem =>
    rw [kind] at due
    exact ⟨due.1.imp (fun deep => deep.later grown) fun again => again.later grown, due.2⟩
  | waitingRedeem pubkeyHex witnessScriptHex sigsHex =>
    rw [kind] at due
    obtain ⟨index, preimage, finished, out, script, variant, spends, covers⟩ := due
    exact ⟨index, preimage, finished, out, script, variant, spends.later grown, covers⟩

theorem foldl_choice_mem {α : Type} (better : α → α → Prop) [DecidableRel better] (first : α)
    (rest : List α) :
    rest.foldl (fun best item => if better item best then item else best) first ∈ first
      :: rest := by
  induction rest generalizing first with
  | nil => exact mem_cons_self
  | cons item rest ih =>
    rw [foldl_cons]
    rcases mem_cons.mp (ih (if better item first then item else first)) with chosen | later
    · rw [chosen]
      split
      · exact mem_cons_of_mem _ mem_cons_self
      · exact mem_cons_self
    · exact mem_cons_of_mem _ (mem_cons_of_mem _ later)

theorem pickVariant_mem {variants : List Transaction} {prevoutValue feerate : Nat}
    (picked : pickVariant variants prevoutValue feerate = some tx) :
    tx ∈ variants := by
  unfold pickVariant at picked
  dsimp only at picked
  split at picked
  next first rest meets =>
    cases picked
    have chosen := foldl_choice_mem
      (fun tx best => fee tx prevoutValue < fee best prevoutValue) first rest
    rw [← meets] at chosen
    exact mem_of_mem_filter chosen
  next first rest _ =>
    cases picked
    exact foldl_choice_mem (fun tx best => fee best prevoutValue ≤ fee tx prevoutValue) first rest
  next => cases picked

theorem isVariant_of_decodeAll {txs : List Transaction}
    (decoded : decodeAll lib job.variants = .ok txs) (mem : tx ∈ txs) : IsVariant lib job tx := by
  obtain ⟨all, mapped, rest⟩ := ok_of_bind decoded
  obtain ⟨_, _, same⟩ := ok_of_bind rest
  cases same
  exact mem_of_mapM mapped mem

variable {pubkeyHex witnessScriptHex : String} {sigsHex : List String}

theorem completedAt_of_finished {out : TxOutInfo}
    {preimage : Fixed 32} {script : Bytes} {variant : SighashVariant}
    (spends : Spends job past out)
    (scripted : hexDecode out.scriptpubkeyHex = some script)
    (mem : tx ∈ (job.variants.zip sigsHex).filterMap fun (txHex, sigHex) =>
      match finishPresignedRedeem lib ⟨txHex, sigHex, pubkeyHex, witnessScriptHex⟩ preimage with
      | .ok tx => if signatureCovers lib tx ⟨out.valueSat, script⟩ variant then some tx else none
      | .error _ => none) :
    ∃ index, CompletedAt lib job past witnessScriptHex sigsHex index preimage tx := by
  obtain ⟨⟨txHex, sigHex⟩, paired, made⟩ := mem_filterMap.mp mem
  obtain ⟨index, isAt⟩ := mem_iff_getElem?.mp paired
  obtain ⟨variantAt, sigAt⟩ := getElem?_zip_eq_some.mp isAt
  dsimp only at made
  rcases finished : finishPresignedRedeem lib ⟨txHex, sigHex, pubkeyHex, witnessScriptHex⟩ preimage
    with fault | given
  · rw [finished] at made
    cases made
  rw [finished] at made
  dsimp only at made
  split at made
  next covers =>
    cases made
    obtain ⟨unsigned, sig, pubkey, script', decoded, signed, unhexed, opens, rfl⟩ :=
      finishPresignedRedeem_opens finished
    refine ⟨index, ⟨unsigned, sig, pubkey, script', ?_, ?_, unhexed, opens, rfl⟩,
      out, script, variant, spends, scripted, covers⟩
    · rw [variantAt]
      exact decoded
    rw [sigAt]
    exact signed
  · cases made

variable {now : Nat}

def DueAfter (lib : BitcoinLib) (job : WatchJob) (now : Nat) (due : Option (List Transaction))
    (after : Past) : Prop :=
  ∀ txs, due = some txs → ∀ tx ∈ txs, Due lib job now after tx

theorem guarded_finishedRedeems {current : WatchJob} (same : current.post = job.post)
    {out : TxOutInfo}
    (kind : job.kind = .waitingRedeem pubkeyHex witnessScriptHex sigsHex)
    (spends : Spends job past out) :
    (finishedRedeems lib current out pubkeyHex witnessScriptHex sigsHex).Guarded
      (Allowed lib job now) past (DueAfter lib job now) := by
  have variants : current.variants = job.variants := congrArg (fun one => one.variants) same
  refine Calls.guarded_call trivial fun _ found _ => ?_
  rcases found with _ | m
  · exact nofun
  dsimp only
  generalize m.funding _ = funding
  rcases funding with _ | outpoint
  · exact nofun
  refine Calls.guarded_call trivial fun _ spender _ => ?_
  rcases spender with _ | spenderHex
  · exact nofun
  generalize decode lib spenderHex = spending
  apply Calls.guarded_given
  intro tx _
  apply Calls.guarded_given
  intro spent _
  generalize (m.hashlock.bind hex32).bind (revealedBy lib tx spent) = revealed
  rcases revealed with _ | preimage
  · exact nofun
  apply Calls.guarded_given
  rintro ⟨btcParams, xbtParams⟩ _
  apply Calls.guarded_given
  intro script scripted
  apply Calls.guarded_given
  intro _ _
  apply Calls.guarded_given
  intro _ _ txs isSome tx mem
  cases isSome
  unfold Due
  rw [kind]
  rw [variants] at mem
  obtain ⟨index, completed⟩ := completedAt_of_finished
    (spends.later fun _ old => mem_cons_of_mem _ (mem_cons_of_mem _ old))
    (some_of_orFail scripted) mem
  exact ⟨index, preimage, completed⟩

/-- Before `dueSpends`: a first send has the HTLC output reported, any other is a re-send. -/
structure Ready (lib : BitcoinLib) (job : WatchJob) (past : Past) (out : TxOutInfo)
    (resend : Bool) : Prop where
  first : resend = false → Told past (.txout job.chain job.htlc.1 job.htlc.2) (.ok (some out))
  again : resend = true → Resendable lib job past
  waits : job.kind ≠ .redeem → Spends job past out

variable {sent : Option (Nat × String)}

section

variable {out : TxOutInfo} {resend : Bool} (ready : Ready lib job past out resend)
include ready

theorem guarded_dueSpends :
    (dueSpends lib { job with sentPrevout := sent } out resend now).Guarded (Allowed lib job now)
      past (DueAfter lib job now) := by
  unfold dueSpends
  cases kind : job.kind with
  | refund =>
    dsimp only
    split
    · exact nofun
    next started =>
    apply Calls.guarded_given
    intro txs decoded _ same tx mem
    cases same
    unfold Due
    rw [kind]
    exact ⟨Nat.le_of_not_lt started, isVariant_of_decodeAll decoded mem⟩
  | redeem =>
    refine Calls.guarded_call trivial fun found _ same => ?_
    cases same
    rcases found with _ | m
    · exact nofun
    dsimp only
    split
    · exact nofun
    next enough =>
    apply Calls.guarded_given
    intro txs decoded _ same tx mem
    cases same
    unfold Due
    rw [kind]
    refine ⟨?_, isVariant_of_decodeAll decoded mem⟩
    cases resend with
    | false =>
      have deep : confsNeeded m job.chain ≤ out.confirmations := by
        simpa using enough
      exact .inl ⟨out, m, (ready.first rfl).later (subset_cons_self _ _), mem_cons_self, deep⟩
    | true =>
      exact .inr ((ready.again rfl).later (subset_cons_self _ _))
  | waitingRedeem pubkeyHex witnessScriptHex sigsHex =>
    refine guarded_finishedRedeems rfl kind (ready.waits ?_)
    rw [kind]
    exact nofun

theorem guarded_sendSpend :
    (sendSpend lib { job with sentPrevout := sent } out resend now).Guarded (Allowed lib job now)
      past fun _ _ => True := by
  refine Calls.Guarded.bind ((guarded_dueSpends ready).imp fun due after _ dueAfter => ?_)
  rcases due with _ | txs
  · trivial
  refine Calls.guarded_call trivial fun rate _ _ => ?_
  apply Calls.guarded_given
  intro tx picked
  have due := dueAfter txs rfl tx (pickVariant_mem (some_of_orFail picked))
  have grown : after ⊆ ⟨.feerate job.chain, rate⟩ :: after := subset_cons_self _ _
  have later := due.later grown
  refine Calls.guarded_call ⟨rfl, tx, rfl, later⟩ fun answer txid accepted => ?_
  cases sent with
  | some prevout => trivial
  | none =>
    refine ⟨⟨rfl, fun done => .inl done, fun _ => .inr (.inl ?_)⟩, fun _ => trivial⟩
    exact ⟨lib.toHex tx, txid, mem_cons.mpr (.inl (by rw [accepted]))⟩

end

theorem guarded_phoneSentRedeem : (phoneSentRedeem lib job).Guarded (Allowed lib job now) past
      fun sent after => sent.isSome → job.kind = .redeem ∧ PhoneSent lib job after := by
  unfold phoneSentRedeem
  split
  · exact nofun
  next btcRedeem =>
  have isRedeem : job.kind = .redeem := by
    by_contra other
    exact btcRedeem (.inr other)
  refine Calls.guarded_call trivial fun found _ same => ?_
  cases same
  rcases found with _ | m
  · exact nofun
  dsimp only
  rcases locked : m.hashlock with _ | hashHex
  · exact nofun
  rcases legWitnessScript lib m .btc with _ | script
  · exact nofun
  refine Calls.guarded_call trivial fun answer spender same => ?_
  cases same
  rcases spender with _ | spenderHex
  · exact nofun
  apply Calls.guarded_given
  intro outpoint parsed
  rcases unhexed : hex32 hashHex with _ | hashlock
  · exact nofun
  generalize isSpending : decode lib spenderHex = spending
  apply Calls.guarded_given
  intro tx decoded
  rw [decoded] at isSpending
  split
  · exact nofun
  next reveals =>
  refine fun _ => ⟨isRedeem, m, hashlock, spenderHex, tx, outpoint,
    mem_cons_of_mem _ mem_cons_self, ?_, mem_cons_self,
    parsed, isSpending, Option.isSome_iff_ne_none.mpr reveals⟩
  rw [locked]
  exact unhexed

theorem guarded_runJob (lib : BitcoinLib) (job : WatchJob) (now : Nat) :
    (runJob lib job now).Guarded (Allowed lib job now) [] fun _ _ => True := by
  refine Calls.guarded_call trivial fun answer found same => ?_
  cases same
  cases found with
  | some out =>
    exact guarded_sendSpend ⟨fun _ => mem_cons_self, nofun, fun _ => .inl mem_cons_self⟩
  | none =>
    refine Calls.guarded_call trivial fun answer confirmed same => ?_
    cases same
    cases confirmed with
    | true =>
      exact ⟨⟨rfl, fun _ => .inr mem_cons_self, fun sent => .inl sent⟩, fun _ => trivial⟩
    | false =>
      cases isSent : job.sentPrevout with
      | some prevout =>
        have ready : Ready lib job [⟨.spendConfirmed job.chain job.htlc.1 job.htlc.2,
            .ok false⟩, ⟨.txout job.chain job.htlc.1 job.htlc.2, .ok none⟩]
            ⟨prevout.1, prevout.2, 0⟩ true :=
          ⟨nofun, fun _ => .inl (by rw [isSent]; rfl), fun _ => .inr isSent⟩
        exact guarded_sendSpend ready
      | none =>
        refine Calls.Guarded.bind (guarded_phoneSentRedeem.imp fun sent after _ phone => ?_)
        rcases sent with _ | prevout
        · trivial
        obtain ⟨isRedeem, sent⟩ := phone rfl
        refine ⟨⟨rfl, fun done => .inl done, fun _ => .inr (.inr sent)⟩,
          fun _ => guarded_sendSpend ⟨nofun, fun _ => .inr
            (sent.later (subset_cons_self _ _)), fun other => absurd isRedeem other⟩⟩

end Work

structure Work where
  job : WatchJob
  now : Nat
  left : TowerM Unit
  past : Past

structure Entry where
  job : WatchJob
  now : Nat
  past : Past
  event : Event tower

structure Logged where
  store : Store
  pass : List Work
  latest : WatchKey → Option WatchJob
  log : List Entry

namespace Logged

def start (store : Store) : Logged :=
  ⟨store, [], fun key => (store.cfWatch.get? key).map WatchJob.post, []⟩

variable (lib : BitcoinLib)

def step (logged : Logged) : WatchMove → Logged
  | .post job => { logged with
      store := finalState (putWatch job.post) logged.store
      latest := fun key => if key = job.key then some job.post else logged.latest key }
  | .begin now =>
    match logged.pass with
    | [] => { logged with
        pass := (logged.store.watchJobs.filter fun job => !job.done).map fun job =>
          ⟨job, now, runJob lib job now, []⟩ }
    | _ :: _ => logged
  | .act view =>
    match logged.pass with
    | [] => logged
    | ⟨_, _, .done _, _⟩ :: rest => { logged with pass := rest }
    | ⟨job, now, .call made next, past⟩ :: rest =>
      let event : Event tower := ⟨made, handler.read made logged.store view⟩
      { logged with
        store := handler.write made logged.store view
        pass := ⟨job, now, next event.answer, event :: past⟩ :: rest
        log := ⟨job, now, past, event⟩ :: logged.log }
  | .drop key =>
    match logged.pass with
    | [] => { logged with
        store := { logged.store with cfWatch := logged.store.cfWatch.delete key }
        latest := fun other => if other = key then none else logged.latest other }
    | _ :: _ => logged
  | .other store => { logged with store := { store with cfWatch := logged.store.cfWatch } }

def run (logged : Logged) (moves : List WatchMove) : Logged := moves.foldl (step lib) logged

def erase (logged : Logged) : Watching where
  store := logged.store
  pass := logged.pass.map fun work => (work.job, work.left.toProc handler)
  latest := logged.latest

theorem erase_step (logged : Logged) (move : WatchMove) :
    (logged.step lib move).erase = logged.erase.step lib move := by
  obtain ⟨store, pass, latest, log⟩ := logged
  cases move with
  | post job => rfl
  | other store => rfl
  | drop key => cases pass <;> rfl
  | begin now =>
    cases pass with
    | cons work rest => rfl
    | nil =>
      simp only [step, erase, Watching.step, map_nil, map_map]
      refine congrArg (fun pass => Watching.mk store pass latest) (map_congr_left ?_)
      intro job _
      rfl
  | act view =>
    rcases pass with _ | ⟨work, rest⟩
    · rfl
    obtain ⟨job, now, left, past⟩ := work
    cases left <;> rfl

theorem erase_run (logged : Logged) (moves : List WatchMove) :
    (logged.run lib moves).erase = logged.erase.run lib moves := by
  induction moves generalizing logged with
  | nil => rfl
  | cons move rest ih =>
    refine (ih (logged.step lib move)).trans ?_
    rw [erase_step]
    rfl

end Logged

/-! ## Every call of a run -/

section

variable (lib : BitcoinLib) (begun : Store)

/-- The job was sent before, by the store the run began with or in the work on it. -/
def SentEarlier (log : List Entry) (job : WatchJob) : Prop :=
  (∃ old ∈ begun.watchJobs, old.post = job.post ∧ old.sentPrevout.isSome) ∨
    ∃ entry ∈ log, entry.job.post = job.post ∧
      (Accepted entry.job entry.past ∨ PhoneSent lib entry.job entry.past)

/-- A job marked as sent was. -/
def Marked (log : List Entry) (job : WatchJob) : Prop :=
  job.sentPrevout.isSome → SentEarlier lib begun log job

/-- What permits a call: the answers before it, in work on a job that is not done. -/
structure Permitted (older : List Entry) (entry : Entry) : Prop where
  allowed : Allowed lib entry.job entry.now entry.past entry.event.call
  undone : entry.job.done = false
  marked : Marked lib begun older entry.job

def AllPermitted : List Entry → Prop
  | [] => True
  | entry :: older => Permitted lib begun older entry ∧ AllPermitted older

structure Working (log : List Entry) (work : Work) : Prop where
  undone : work.job.done = false
  marked : Marked lib begun log work.job
  guarded : work.left.Guarded (Allowed lib work.job work.now) work.past fun _ _ => True

structure Sound (logged : Logged) : Prop where
  permitted : AllPermitted lib begun logged.log
  working : ∀ work ∈ logged.pass, Working lib begun logged.log work
  stored : ∀ job ∈ logged.store.watchJobs, Marked lib begun logged.log job

variable {lib begun} {log : List Entry} {job written : WatchJob} {entry : Entry} {logged : Logged}

theorem Marked.later (marked : Marked lib begun log job) (entry : Entry) :
    Marked lib begun (entry :: log) job := fun isSent =>
  (marked isSent).imp_right fun ⟨old, mem, rest⟩ => ⟨old, mem_cons_of_mem _ mem, rest⟩

theorem stored_write {store : Store} {view : TowerView}
    (mem : job ∈ (handler.write made store view).watchJobs) :
    job ∈ store.watchJobs ∨ made = .putWatch job := by
  cases made with
  | putWatch written =>
    rcases Table.mem_put.mp mem with rfl | ⟨old, _⟩
    · exact .inr rfl
    · exact .inl old
  | _ => exact .inl mem

theorem Permitted.writes (permitted : Permitted lib begun log entry)
    (isCall : entry.event.call = .putWatch written) : Marked lib begun (entry :: log) written := by
  have allowed := permitted.allowed
  rw [isCall] at allowed
  obtain ⟨same, _, sent⟩ := allowed
  intro isSent
  rcases sent isSent with before | here
  · rcases permitted.marked before with ⟨old, mem, post, wasSent⟩ | ⟨old, mem, post, rest⟩
    · exact .inl ⟨old, mem, post.trans same.symm, wasSent⟩
    · exact .inr ⟨old, mem_cons_of_mem _ mem, post.trans same.symm, rest⟩
  · exact .inr ⟨entry, mem_cons_self, same.symm, here⟩

section

variable (sound : Sound lib begun logged)
include sound

theorem Sound.act (view : TowerView) : Sound lib begun (logged.step lib (.act view)) := by
  obtain ⟨store, pass, latest, log⟩ := logged
  rcases pass with _ | ⟨work, rest⟩
  · exact sound
  obtain ⟨job, now, left, past⟩ := work
  have here := sound.working _ mem_cons_self
  have others := fun other mem => sound.working other (mem_cons_of_mem _ mem)
  cases left with
  | done value => exact ⟨sound.permitted, others, sound.stored⟩
  | call made next =>
    let entry : Entry := ⟨job, now, past, ⟨made, handler.read made store view⟩⟩
    have permitted : Permitted lib begun log entry := ⟨here.guarded.1, here.undone, here.marked⟩
    refine ⟨⟨permitted, sound.permitted⟩, fun work mem => ?_, fun stored mem => ?_⟩
    · rcases mem_cons.mp mem with rfl | old
      · exact ⟨here.undone, here.marked.later entry, here.guarded.2 _⟩
      obtain ⟨undone, marked, guarded⟩ := others work old
      exact ⟨undone, marked.later entry, guarded⟩
    rcases stored_write mem with old | isPut
    · exact (sound.stored stored old).later entry
    · exact permitted.writes isPut

theorem Sound.step (move : WatchMove) : Sound lib begun (logged.step lib move) := by
  obtain ⟨store, pass, latest, log⟩ := logged
  cases move with
  | act view => exact sound.act view
  | other store => exact ⟨sound.permitted, sound.working, sound.stored⟩
  | post job =>
    refine ⟨sound.permitted, sound.working, fun stored mem => ?_⟩
    rcases Table.mem_put.mp mem with rfl | ⟨old, _⟩
    · exact nofun
    · exact sound.stored stored old
  | begin now =>
    cases pass with
    | cons work rest => exact sound
    | nil =>
      refine ⟨sound.permitted, fun work mem => ?_, sound.stored⟩
      obtain ⟨job, listed, rfl⟩ := mem_map.mp mem
      obtain ⟨stored, undone⟩ := mem_filter.mp listed
      exact ⟨by simpa using undone, sound.stored job stored, guarded_runJob lib job now⟩
  | drop key =>
    cases pass with
    | cons work rest => exact sound
    | nil =>
      exact ⟨sound.permitted, sound.working, fun stored mem =>
        sound.stored stored (mem_of_mem_filter mem)⟩

theorem sound_run (moves : List WatchMove) : Sound lib begun (logged.run lib moves) := by
  induction moves generalizing logged with
  | nil => exact sound
  | cons move rest ih => exact ih (sound.step move)

end

end

/-- In every run the work on a job makes permitted calls only: a refund goes out only once its start
time has come, a redeem only with its output reported deep enough or as a re-send, a waiting redeem
only completed with an opening of its own hashlock. -/
theorem tower_sends_permitted (lib : BitcoinLib) (store : Store) (moves : List WatchMove) :
    ((Logged.start store).run lib moves).erase = (Watching.start store).run lib moves ∧
      AllPermitted lib store ((Logged.start store).run lib moves).log := by
  refine ⟨Logged.erase_run lib (Logged.start store) moves, ?_⟩
  have start : Sound lib store (Logged.start store) :=
    ⟨trivial, nofun, fun job mem isSent => .inl ⟨job, mem, rfl, isSent⟩⟩
  exact (sound_run start moves).permitted

end Fortis.Edge.Tower
