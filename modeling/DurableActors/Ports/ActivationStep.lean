import DurableActors.Ports.Activation

/-!
# The steps of activation, renewal, writing and release

One definition per stretch of code between two awaits, under the source's
words, and the step function that dispatches to them.
-/

namespace DurableActors.Ports.Activation

open Verified

/-- One step of a session between two awaits, or of a store. -/
inductive Action
  | tick (ms : Nat)
  | applyClaim (claim : Claim)
  | applyPut (bytes : Snapshot)
  | register (host : Host) (newActor : Bool) (hint : Option (Nat × Ownership))
  | readOwner (host : Host)
  | validate (host : Host)
  | stamp (host : Host)
  | listLog (host : Host)
  | loadBase (host : Host)
  | claimReplied (host : Host) (replaced recovered : Bool)
  | adopt (host : Host)
  | confirm (host : Host)
  | failRegistration (host : Host)
  | abortRead (host : Host)
  | abortReplied (host : Host) (replaced : Bool)
  | renewRead (host : Host)
  | renewCheck (host : Host)
  | renewStamp (host : Host)
  | renewReplied (host : Host)
  | renewAdopt (host : Host)
  | writeBegin (i : Nat) (host : Host) (plan : WritePlan) (bytes : Snapshot)
  | checkOwner (i : Nat)
  | verifyParent (i : Nat)
  | startUpload (i : Nat)
  | putReplied (i : Nat)
  | recheckOwner (i : Nat)
  | recordUpload (i : Nat)
  | acknowledge (i : Nat)
  | failWrite (i : Nat)
  | drain (host : Host)
  | failDrain (host : Host)
  | closeStream (host : Host) (completed : Bool)
  | setFence (host : Host)
  | finishRead (host : Host)
  | finishReplied (host : Host) (replaced : Bool)
  | failFinish (host : Host)
deriving DecidableEq, Repr

section Steps

variable (cfg : Config) (s : World)

def World.setRegistration (h : Host) (r : Registration) : World :=
  { s with registration := Function.update s.registration h r }

def World.setShutdown (h : Host) (d : Shutdown) : World :=
  { s with shutdown := Function.update s.shutdown h d }

def World.setFenceOf (h : Host) (f : LeaseFence) : World :=
  { s with fence := Function.update s.fence h f }

def World.setWrite (i : Nat) (w : Write) : World :=
  { s with writes := Function.update s.writes i w }

/-- The store takes a conditional request: it installs the record exactly
when the expected generation is the current one. -/
def applyClaim (claim : Claim) : Option World :=
  if claim ∈ s.requests then
    some { s with
      history := VersionedCell.swap s.history claim.expected claim.record }
  else none

/-- The store takes a put-if-absent request. -/
def applyPut (bytes : Snapshot) : Option World :=
  if bytes ∈ s.puts then
    if (s.get bytes.object).isSome then some s
    else some { s with snapshots := bytes :: s.snapshots }
  else none

/-- `HostStorage::register` up to its first await.  The first call of a
session activates; once a lease is confirmed, later calls renew.  A hint is a
record some reader loaded earlier with its generation. -/
def register (h : Host) (newActor : Bool) (hint : Option (Nat × Ownership)) :
    Option World :=
  if s.registration h ≠ .idle ∨
      ¬hint.all (fun hint =>
        VersionedCell.valueAt s.history hint.1 = some hint.2) then none
  else
    match (s.fence h).begin s.now with
    | (fence, false) => some (s.setFenceOf h fence)
    | (fence, true) =>
      let s := s.setFenceOf h fence
      match s.lease h with
      | none =>
        some (s.setRegistration h
          (.reading s.now (hint.filter (hintUsable cfg h s.now)) newActor))
      | some _ => some (s.setRegistration h (.renewReading s.now))

/-- Obtain `current`: the hint, nothing for a new actor, or a load. -/
def readOwner (h : Host) : Option World :=
  match s.registration h with
  | .reading started (some hint) _ =>
    some (s.setRegistration h (.validating started true (some hint)))
  | .reading started none true =>
    some (s.setRegistration h (.validating started false none))
  | .reading started none false =>
    some (s.setRegistration h (.validating started false s.load))
  | _ => none

/-- The lease of the record that was read is over. -/
def validate (h : Host) : Option World :=
  match s.registration h with
  | .validating started hinted current =>
    if validateActivation cfg h s.now (current.map Prod.snd) then
      some (s.setRegistration h (.stamping started hinted current))
    else none
  | _ => none

/-- Build the record.  Without a log to recover the claim is sent at once,
joined with the download of the sealed base. -/
def stamp (h : Host) : Option World :=
  match s.registration h with
  | .stamping started hinted current =>
    match activationRecord cfg h s.now (current.map Prod.snd) with
    | none => none
    | some record =>
      let claim : Claim :=
        ⟨h, current.map Prod.fst, { record with mutation := s.mutations }⟩
      match current with
      | some (generation, previous) =>
        if previous.isSealed then
          some ((s.send claim).setRegistration h
            (.claiming started hinted true claim))
        else
          some (s.setRegistration h
            (.listing started generation previous record))
      | none =>
        some ((s.send claim).setRegistration h
          (.claiming started hinted true claim))
  | _ => none

/-- `SnapshotStore::latest` on the previous owner's stream. -/
def listLog (h : Host) : Option World :=
  match s.registration h with
  | .listing started generation previous record =>
    some (s.setRegistration h
      (.loading started generation previous record (s.latest previous.epoch)))
  | _ => none

/-- `load_latest` on what the list found, then the claim. -/
def loadBase (h : Host) : Option World :=
  match s.registration h with
  | .loading started generation previous record recovered =>
    match s.loadLatest cfg previous.base recovered with
    | none => none
    | some base =>
      let claim : Claim :=
        ⟨h, some generation,
          { record with base := base, mutation := s.mutations }⟩
      some ((s.send claim).setRegistration h
        (.claiming started false false claim))
  | _ => none

/-- `replace` answers `true` when the swap reports success or the read back
finds the record, and `false` when the read back finds another one. -/
def World.replaceAnswers (record : Ownership) (replaced : Bool) : Prop :=
  if replaced then record ∈ s.history else s.history.getLast? ≠ some record

instance (record : Ownership) (replaced : Bool) :
    Decidable (s.replaceAnswers record replaced) := by
  unfold World.replaceAnswers; infer_instance

/-- The answer of `claim_activation`, with the joined recovery's result. -/
def claimReplied (h : Host) (replaced recovered : Bool) : Option World :=
  match s.registration h with
  | .claiming started hinted joined claim =>
    if s.replaceAnswers claim.record replaced ∧
        (joined → recovered →
          claim.record.base.all (s.verified cfg)) then
      some (s.setRegistration h
        (if replaced then
          if joined ∧ ¬recovered then .releasing claim.record 0
          else .adopting started claim.record
        else if hinted then .reading started none false
        else .idle))
    else none
  | _ => none

/-- `remember`: the record becomes the local one.  The snapshot recovery
loaded is the record's base. -/
def adopt (h : Host) : Option World :=
  match s.registration h with
  | .adopting started record =>
    let uploaded := s.uploaded h
    some { s with
      owned := Function.update s.owned h (some record)
      uploaded := Function.update s.uploaded h
        { uploaded with latest := record.base <|> uploaded.latest }
      registration := Function.update s.registration h
        (.confirming started record.lease) }
  | _ => none

/-- `LeaseFence::confirm` and the lease kept for later renewals. -/
def confirm (h : Host) : Option World :=
  match s.registration h with
  | .confirming started lease =>
    match (s.fence h).confirm started (cfg.durationMs h) s.now with
    | (fence, false) =>
      some ((s.setFenceOf h fence).setRegistration h .idle)
    | (fence, true) =>
      let s := s.setFenceOf h fence
      some { s with
        lease := Function.update s.lease h (some lease)
        registration := Function.update s.registration h .idle }
  | _ => none

/-- The call returns an error, or its future is dropped.  Nothing is awaited
between `remember` (or the local renewal) and `confirm`, so neither can
happen there. -/
def failRegistration (h : Host) : Option World :=
  match s.registration h with
  | .idle => none
  | .confirming _ _ => none
  | _ => some (s.setRegistration h .idle)

/-- One turn of the release that follows a failed recovery: the claimed record
is sealed again at its own base. -/
def abortRead (h : Host) : Option World :=
  match s.registration h with
  | .releasing record attempt =>
    if attempt < 3 then
      match s.releaseClaim h (some record.base) with
      | none => some (s.setRegistration h .idle)
      | some claim =>
        some ((s.send claim).setRegistration h
          (.swapping record attempt claim))
    else some (s.setRegistration h .idle)
  | _ => none

/-- The release after a failed recovery is answered. -/
def abortReplied (h : Host) (replaced : Bool) : Option World :=
  match s.registration h with
  | .swapping record attempt claim =>
    if s.replaceAnswers claim.record replaced then
      some (s.setRegistration h
        (if replaced then .idle else .releasing record (attempt + 1)))
    else none
  | _ => none

/-- `renew` reads the owner record. -/
def renewRead (h : Host) : Option World :=
  match s.registration h, s.load with
  | .renewReading started, some (generation, record) =>
    if record.lease.session = h then
      some (s.setRegistration h (.renewChecking started generation record))
    else none
  | _, _ => none

/-- The record is still the session's. -/
def renewCheck (h : Host) : Option World :=
  match s.registration h with
  | .renewChecking started generation record =>
    if s.now < record.lease.expiresAtMs then
      some (s.setRegistration h (.renewStamping started generation record))
    else none
  | _ => none

/-- The renewed lease is stamped and sent. -/
def renewStamp (h : Host) : Option World :=
  match s.registration h with
  | .renewStamping started generation record =>
    match newLease cfg h s.now with
    | none => none
    | some lease =>
      let claim : Claim :=
        ⟨h, some generation,
          { record with lease := lease, mutation := s.mutations }⟩
      some ((s.send claim).setRegistration h (.renewClaiming started claim))
  | _ => none

/-- `save_activation` succeeded; every other answer is an error. -/
def renewReplied (h : Host) : Option World :=
  match s.registration h with
  | .renewClaiming started claim =>
    if s.replaceAnswers claim.record true then
      some (s.setRegistration h (.renewAdopting started claim.record))
    else none
  | _ => none

/-- Carry the renewed lease over to the local record. -/
def renewAdopt (h : Host) : Option World :=
  match s.registration h with
  | .renewAdopting started record =>
    match s.owned h with
    | none =>
      some (s.setRegistration h (.confirming started record.lease))
    | some owned =>
      if owned.epoch = record.epoch then
        let s := s.setRegistration h (.confirming started record.lease)
        some { s with
          owned := Function.update s.owned h
            (some { owned with lease := record.lease }) }
      else none
  | _ => none

/-! ### Snapshot writes -/

/-- `ActorPersistence::write_snapshot` up to its drop guard. -/
def writeBegin (i : Nat) (h : Host) (plan : WritePlan) (bytes : Snapshot) :
    Option World :=
  if (s.writes i).pc = .idle then
    match s.ensureAuthority h with
    | (fence, false) => some (s.setFenceOf h fence)
    | (fence, true) =>
      some ((s.setFenceOf h fence).setWrite i ⟨.entered, h, plan, bytes⟩)
  else none

/-- The owner check and the plan check of `RuntimeStorage::write_snapshot`. -/
def checkOwner (i : Nat) : Option World :=
  let w := s.writes i
  if w.pc = .entered ∧ s.ensureWriteOwner w.host w.plan = true then
    match w.plan.stream.snapshot cfg w.bytes with
    | none => none
    | some snapshot =>
      if snapshot.object = w.plan.objectName ∧
          snapshot.stateVersion = w.plan.stateVersion then
        some (s.setWrite i { w with pc := .planned })
      else none
  else none

/-- A parent this session did not upload itself has to be readable. -/
def verifyParent (i : Nat) : Option World :=
  let w := s.writes i
  if w.pc = .planned ∧ w.bytes.parent.all (fun parent =>
      (s.uploaded w.host).latest = some parent ∨
        s.verified cfg parent = true) then
    some (s.setWrite i { w with pc := .verified })
  else none

/-- Count the upload and send the put. -/
def startUpload (i : Nat) : Option World :=
  let w := s.writes i
  if w.pc = .verified then
    let uploaded := s.uploaded w.host
    let s := s.setWrite i { w with pc := .putting }
    some { s with
      uploaded := Function.update s.uploaded w.host
        { uploaded with started := uploaded.started + 1 }
      pending := Function.update s.pending w.host (insert i (s.pending w.host))
      puts := w.bytes :: s.puts }
  else none

/-- `SnapshotStore::put` succeeded: the object holds these bytes, and the
stream was still open. -/
def putReplied (i : Nat) : Option World :=
  let w := s.writes i
  if w.pc = .putting ∧ s.get w.bytes.object = some w.bytes ∧
      s.streamClosed w.host = false then
    some (s.setWrite i { w with pc := .stored })
  else none

/-- The owner is checked again after the upload. -/
def recheckOwner (i : Nat) : Option World :=
  let w := s.writes i
  if w.pc = .stored ∧ s.ensureWriteOwner w.host w.plan = true then
    some (s.setWrite i { w with pc := .rechecked })
  else none

/-- Advance the session's witness and count the upload as completed. -/
def recordUpload (i : Nat) : Option World :=
  let w := s.writes i
  if w.pc = .rechecked then
    let uploaded := s.uploaded w.host
    match advance uploaded.latest (some (cfg.reference w.bytes)) with
    | none => none
    | some latest =>
      let s := s.setWrite i { w with pc := .recorded }
      some { s with
        uploaded := Function.update s.uploaded w.host
          { uploaded with
            latest := latest
            completed := uploaded.completed + 1 }
        pending := Function.update s.pending w.host
          ((s.pending w.host).erase i) }
  else none

/-- The last fence check: the caller gets its answer, or the drop guard stops
the session. -/
def acknowledge (i : Nat) : Option World :=
  let w := s.writes i
  if w.pc = .recorded then
    match s.ensureAuthority w.host with
    | (fence, false) =>
      let s := (s.setFenceOf w.host fence).setWrite i Write.none
      some { s with stop := Function.update s.stop w.host true }
    | (fence, true) =>
      let s := (s.setFenceOf w.host fence).setWrite i Write.none
      some { s with acknowledged := w.bytes.object :: s.acknowledged }
  else none

/-- The call fails or is dropped; its drop guard stops the session. -/
def failWrite (i : Nat) : Option World :=
  let w := s.writes i
  if w.pc = .idle then none
  else
    let s := s.setWrite i Write.none
    some { s with stop := Function.update s.stop w.host true }

/-! ### Graceful shutdown -/

/-- `drain_activation` up to `SnapshotStore::finish`: the sealed base is read
here. -/
def drain (h : Host) : Option World :=
  if s.shutdown h = .running then
    match s.uploadCheckpoint h with
    | none => some (s.setShutdown h (.fencing none))
    | some snapshot => some (s.setShutdown h (.closing snapshot))
  else none

/-- The drain fails; recovery is left to the successor. -/
def failDrain (h : Host) : Option World :=
  if s.shutdown h = .running then some (s.setShutdown h (.fencing none))
  else none

/-- `SnapshotStore::finish` returns, or fails after it may have closed the
stream. -/
def closeStream (h : Host) (completed : Bool) : Option World :=
  match s.shutdown h with
  | .closing snapshot =>
    let s := s.setShutdown h
      (.fencing (if completed then some snapshot else none))
    some { s with
      streamClosed := Function.update s.streamClosed h
        (s.streamClosed h || cfg.closesStream) }
  | _ => none

/-- `HostStorage::finish` sets the fence before it releases. -/
def setFence (h : Host) : Option World :=
  match s.shutdown h with
  | .fencing checkpoint =>
    some ((s.setFenceOf h { s.fence h with fenced := true }).setShutdown h
      (.releasing checkpoint 0))
  | _ => none

/-- One turn of the loop of `release_with_checkpoint`. -/
def finishRead (h : Host) : Option World :=
  match s.shutdown h with
  | .releasing checkpoint attempt =>
    if attempt < 3 then
      match s.releaseClaim h checkpoint with
      | none => some (s.setShutdown h .finished)
      | some claim =>
        some ((s.send claim).setShutdown h
          (.swapping checkpoint attempt claim))
    else some (s.setShutdown h .finished)
  | _ => none

/-- The sealing claim is answered. -/
def finishReplied (h : Host) (replaced : Bool) : Option World :=
  match s.shutdown h with
  | .swapping checkpoint attempt claim =>
    if s.replaceAnswers claim.record replaced then
      some (s.setShutdown h
        (if replaced then .finished else .releasing checkpoint (attempt + 1)))
    else none
  | _ => none

/-- The release fails or times out. -/
def failFinish (h : Host) : Option World :=
  match s.shutdown h with
  | .releasing _ _ => some (s.setShutdown h .finished)
  | .swapping _ _ _ => some (s.setShutdown h .finished)
  | _ => none

/-- The transition function of the whole system. -/
def step : Action → Option World
  | .tick ms => some { s with now := s.now + ms }
  | .applyClaim claim => applyClaim s claim
  | .applyPut bytes => applyPut s bytes
  | .register h newActor hint => register cfg s h newActor hint
  | .readOwner h => readOwner s h
  | .validate h => validate cfg s h
  | .stamp h => stamp cfg s h
  | .listLog h => listLog s h
  | .loadBase h => loadBase cfg s h
  | .claimReplied h replaced recovered => claimReplied cfg s h replaced recovered
  | .adopt h => adopt s h
  | .confirm h => confirm cfg s h
  | .failRegistration h => failRegistration s h
  | .abortRead h => abortRead s h
  | .abortReplied h replaced => abortReplied s h replaced
  | .renewRead h => renewRead s h
  | .renewCheck h => renewCheck s h
  | .renewStamp h => renewStamp cfg s h
  | .renewReplied h => renewReplied s h
  | .renewAdopt h => renewAdopt s h
  | .writeBegin i h plan bytes => writeBegin s i h plan bytes
  | .checkOwner i => checkOwner cfg s i
  | .verifyParent i => verifyParent cfg s i
  | .startUpload i => startUpload s i
  | .putReplied i => putReplied s i
  | .recheckOwner i => recheckOwner s i
  | .recordUpload i => recordUpload cfg s i
  | .acknowledge i => acknowledge s i
  | .failWrite i => failWrite s i
  | .drain h => drain s h
  | .failDrain h => failDrain s h
  | .closeStream h completed => closeStream cfg s h completed
  | .setFence h => setFence s h
  | .finishRead h => finishRead s h
  | .finishReplied h replaced => finishReplied s h replaced
  | .failFinish h => failFinish s h

end Steps

end DurableActors.Ports.Activation
