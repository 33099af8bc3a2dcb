import Quorum.Cluster

/-!
A cluster whose members act on their own once they are started.

The clock stands still while members are told what to do and goes on, a millisecond at a time, while
somebody waits. A started member sends the rounds that are due at once; as a leader it has a round
to every peer fall due at each whole interval, and apart from that it stands for election when its
timer ends. The timer ends after the shortest span that the configuration allows.
-/

namespace Quorum

/-- What a started member does by the clock. -/
structure Pulse where
  /-- When the member was started. Its intervals are counted from then on. -/
  since : Nat
  /-- When the election timer ends. -/
  timerEnd : Nat
  /-- How often the timer had been set anew when its end was reckoned. -/
  resets : Nat
deriving DecidableEq, Repr

/-- How far a member that was started ever has got. -/
inductive Phase where
  | acting (p : Pulse)
  /-- Shut down. A member that is started again lets itself be shut down again, but no longer acts
  on its own. -/
  | spent (started : Bool)
deriving DecidableEq, Repr

/-- Somebody who waits for an entry, and gives up at the deadline. -/
structure Client where
  member : NodeId
  entry : Written
  deadline : Nat
deriving DecidableEq, Repr

structure Running (σ μ : Type) where
  cluster : Cluster σ μ
  /-- Milliseconds since the beginning. -/
  now : Nat := 0
  phases : Table NodeId Phase := []
  clients : List Client := []

namespace Running

variable {σ μ : Type}

/-- The milliseconds that a wait lasts. -/
def patience : Nat := 10000

def ids (r : Running σ μ) : List NodeId := r.cluster.hosts.map (·.1)

def put (n : Node σ μ) (r : Running σ μ) : Running σ μ :=
  { r with cluster := r.cluster.put n.id n }

/-- A member that acts on its own, with what it does by the clock. -/
def acting? (id : NodeId) (r : Running σ μ) : Option (Pulse × Node σ μ) :=
  match Table.find? id r.phases, r.cluster.node? id with
  | some (.acting p), some n => some (p, n)
  | _, _ => none

/-- Winds up the election timer of a member. -/
def wind (p : Pulse) (n : Node σ μ) (r : Running σ μ) : Running σ μ :=
  let p := { p with timerEnd := r.now + n.config.timing.electionMin, resets := n.resets }
  { r with phases := Table.insert n.id (.acting p) r.phases }

def start (id : NodeId) (r : Running σ μ) : Running σ μ :=
  match Table.find? id r.phases, r.cluster.node? id with
  | none, some n => r.wind ⟨r.now, 0, 0⟩ n
  | some (.spent _), _ => { r with phases := Table.insert id (.spent true) r.phases }
  | _, _ => r

/-- Loses the member and its clients. When it comes back it was neither started nor shut down. -/
def crash (id : NodeId) (r : Running σ μ) : Running σ μ :=
  { r with
    cluster := r.cluster.crash id
    phases := Table.erase id r.phases
    clients := r.clients.filter (·.member ≠ id) }

/-- Ends what a member does on its own, and the waits of its clients, unless it is not started. -/
def shutdown (id : NodeId) (r : Running σ μ) : Running σ μ :=
  match Table.find? id r.phases with
  | none | some (.spent false) => r
  | _ =>
    { r with
      cluster := r.cluster.modify id fun n =>
        { n with heartbeats := false, log := n.log.failWaits }
      phases := Table.insert id (.spent false) r.phases }

/-- Clients whose time is over give up. -/
def expire (r : Running σ μ) : Running σ μ :=
  let late := r.clients.filter (·.deadline ≤ r.now)
  { r with
    cluster := late.foldl (fun c w => c.modify w.member (Node.giveUp w.entry)) r.cluster
    clients := r.clients.filter (r.now < ·.deadline) }

variable [LogStore σ] [BallotStore σ] [Machine μ]

/-! ### The clock -/

/-- Sends the rounds of a member that are due, if it acts on its own. -/
def sendDue (r : Running σ μ) (id : NodeId) : Running σ μ :=
  match r.acting? id with
  | some _ => { r with cluster := r.cluster.sendDue id }
  | none => r

/-- Sends all rounds that are due. -/
def flush (r : Running σ μ) : Running σ μ := r.ids.foldl sendDue r

/-- Reckons anew when the timer of a member ends, if it was set since that was done last. -/
def rewind (r : Running σ μ) (id : NodeId) : Running σ μ :=
  match r.acting? id with
  | some (p, n) => if p.resets = n.resets then r else r.wind p n
  | none => r

/-- Another interval is over. -/
def isBeat (p : Pulse) (n : Node σ μ) (r : Running σ μ) : Bool :=
  (r.now - p.since) % max n.config.timing.heartbeat 1 == 0

/-- The timer of a member has ended, and nothing has set it anew in the meantime. -/
def isOverdue (p : Pulse) (n : Node σ μ) (r : Running σ μ) : Bool :=
  decide (p.timerEnd ≤ r.now) && p.resets == n.resets

/-- What a leader does by the clock. When its timer ends it sets it anew. -/
def lead (p : Pulse) (n : Node σ μ) (r : Running σ μ) : Running σ μ :=
  let called := if n.heartbeats && r.isBeat p n then n.callRounds else n
  r.put (if r.isOverdue p n then called.resetTimer else called)

/-- What any other member does by the clock. -/
def follow (p : Pulse) (n : Node σ μ) (r : Running σ μ) : Running σ μ :=
  if r.isOverdue p n then { r with cluster := (r.cluster.campaign n.id []).2 } else r

/-- What a member does of its own at one point in time. -/
def act (r : Running σ μ) (id : NodeId) : Running σ μ :=
  match r.acting? id with
  | none => r
  | some (p, n) => (if n.role = .leader then r.lead p n else r.follow p n).sendDue id

/-- A millisecond passes. -/
def tick (r : Running σ μ) : Running σ μ :=
  let r := r.ids.foldl rewind r
  (r.ids.foldl act { r with now := r.now + 1 }).expire

/-- Waits until something holds, for so many milliseconds at most. -/
def awaitFor (holds : Running σ μ → Bool) : Nat → Running σ μ → Bool × Running σ μ
  | 0, r => (holds r, r)
  | ms + 1, r => if holds r then (true, r) else awaitFor holds ms r.tick

def await (holds : Running σ μ → Bool) (r : Running σ μ) : Bool × Running σ μ :=
  awaitFor holds patience r

/-! ### Catching up -/

/-- A member has all that the leader has, knows it, and the leader knows that it does. -/
def hasCaughtUp (leader n : Node σ μ) : Bool :=
  n.log.entries == leader.log.entries && n.term == leader.term &&
    n.log.commit == leader.log.commit && n.log.applied == leader.log.applied &&
    n.likelyLeader == some leader.id &&
    (n.id == leader.id ||
      (leader.progress.row n.id == ⟨leader.log.size, leader.log.lastIndex⟩ &&
        decide (n.id ∈ leader.contacts.heard)))

/-- Every member that runs and is not isolated has caught up. -/
def isSettled (id : NodeId) (r : Running σ μ) : Bool :=
  match r.cluster.node? id with
  | none => false
  | some leader =>
    r.ids.all fun other =>
      r.cluster.network.isIsolated other ||
        match r.cluster.node? other with
        | some n => hasCaughtUp leader n
        | none => true

/-! ### Clients -/

/-- An append up to the wait, of a client that gives up when its time is over. -/
def submit (n : Node σ μ) (payload : Bytes) (r : Running σ μ) :
    Except ClientError Written × Running σ μ :=
  match n.submit payload with
  | (.error e, n) => (.error e, r.put n)
  | (.ok w, n) =>
    let client : Client := ⟨n.id, w, r.now + n.config.timing.commitWait⟩
    (.ok w, { r with clients := r.clients ++ [client] }.put (n.beginWait w))

/-- An append of a client that waits while the cluster goes on. -/
def append (n : Node σ μ) (payload : Bytes) (r : Running σ μ) :
    Except ClientError Index × Running σ μ :=
  match r.submit n payload with
  | (.error e, r) => (.error e, r)
  | (.ok w, r) =>
    let isResolved (r : Running σ μ) : Bool :=
      (r.cluster.node? n.id).all fun n => (n.outcome? w).isSome
    let r := (awaitFor isResolved n.config.timing.commitWait r.flush).2
    match r.cluster.node? n.id with
    | none => (.error (.commitAborted w.index), r)
    | some n =>
      match n.conclude w with
      | (result, n) => (result, r.put n)

end Running

end Quorum
