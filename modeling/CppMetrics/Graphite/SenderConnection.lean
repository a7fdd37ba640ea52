import CppMetrics.Graphite.GraphiteSenderTCP
import CppMetrics.Lib.Machine

/-! The sender and the objects behind it. `connect` makes a new `io_service_` first, and puts a new
`socket_` in place and sets `connected_` only after the name of the host is resolved. -/

namespace CppMetrics.GraphiteSenderTCP

/-- A socket belongs to the service it was made with. -/
structure Socket where
  service : ℕ
  connected : Bool
  text : Str

structure Connection where
  connected : Bool
  ioService : Option ℕ
  socket : Option Socket
  made : ℕ

/-- What the resolver and the connecting of the socket report to `connect`. -/
inductive Resolution
  | unresolved (what : Str)
  | refused (message : Str)
  | established

/-- A write that throws may have written some of the bytes. -/
inductive Write
  | done
  | broken (what : Str) (bytes : ℕ)

inductive Failure
  | error (e : Error)
  | systemError (what : Str)
  /-- A null `socket_` is dereferenced, which is undefined. -/
  | noSocket
  deriving DecidableEq

namespace Connection

def init : Connection := ⟨false, none, none, 0⟩

def connect (outcome : Resolution) (s : Connection) : Except Failure Unit × Connection :=
  let service := s.made + 1
  let s := { s with ioService := some service, made := service }
  match outcome with
  | .unresolved what => (.error (.systemError what), s)
  | .refused message =>
    (.error (.error (.runtimeError (str "Connect() error, reason: " ++ message))),
      { s with socket := some ⟨service, false, []⟩, connected := false })
  | .established => (.ok (), { s with socket := some ⟨service, true, []⟩, connected := true })

def notEstablished : Failure :=
  .error (.runtimeError (str "Graphite server connection not established."))

def send (name value : Str) (timestamp : ℕ) (write : Write) (s : Connection) :
    Except Failure Unit × Connection :=
  if !s.connected then
    (.error notEstablished, s)
  else
    match s.socket with
    | none => (.error .noSocket, s)
    | some socket =>
      let graphiteStr := line name value timestamp
      match write with
      | .done =>
        (.ok (), { s with socket := some { socket with text := socket.text ++ graphiteStr } })
      | .broken what bytes =>
        (.error (.systemError what),
          { s with socket := some { socket with text := socket.text ++ graphiteStr.take bytes } })

def close (s : Connection) : Connection :=
  { s with connected := false, socket := none, ioService := none }

inductive Call
  | connect (outcome : Resolution)
  | send (name value : Str) (timestamp : ℕ) (write : Write)
  | close

def perform (s : Connection) : Call → Connection
  | .connect outcome => (s.connect outcome).2
  | .send name value timestamp write => (s.send name value timestamp write).2
  | .close => s.close

def step (s : Connection) (c : Call) : Option Connection := some (s.perform c)

/-! ### The sender of the reports -/

def sender (s : Connection) : Sender := ⟨s.connected, s.socket.map Socket.text⟩

theorem sender_connect (ec : Option Str) (s : Connection) :
    let outcome : Resolution := ec.elim .established .refused
    (s.connect outcome).2.sender = (GraphiteSenderTCP.connect ec s.sender).2 ∧
      (s.connect outcome).1 = (GraphiteSenderTCP.connect ec s.sender).1.mapError .error := by
  cases ec with
  | none => exact ⟨rfl, rfl⟩
  | some message => exact ⟨rfl, rfl⟩

theorem sender_send {s : Connection} {socket : Socket} (hsocket : s.socket = some socket)
    (name value : Str) (timestamp : ℕ) :
    (s.send name value timestamp .done).2.sender =
        (GraphiteSenderTCP.send name value timestamp s.sender).2 ∧
      (s.send name value timestamp .done).1 =
        (GraphiteSenderTCP.send name value timestamp s.sender).1.mapError .error := by
  obtain ⟨connected, ioService, _, made⟩ := s
  cases hsocket
  cases connected with
  | false => exact ⟨rfl, rfl⟩
  | true => exact ⟨rfl, rfl⟩

theorem sender_close (s : Connection) : s.close.sender = GraphiteSenderTCP.close s.sender := rfl

/-! ### What `connected_` stands for -/

/-- The service that the most recent `connect` made, and whether that call succeeded. -/
abbrev Latest := Option (ℕ × Bool)

def note (latest : Latest) (s : Connection) : Call → Latest
  | .connect .established => some (s.made + 1, true)
  | .connect (.unresolved _) | .connect (.refused _) => some (s.made + 1, false)
  | .send _ _ _ _ | .close => latest

/-- A sender that claims to be connected has a connected socket of its service, from the most recent
`connect`; once that call has thrown, every `send` says so. -/
structure Honest (latest : Latest) (s : Connection) : Prop where
  backed : s.connected = true → ∃ socket, s.socket = some socket ∧ socket.connected = true ∧
    s.ioService = some socket.service ∧ latest = some (socket.service, true)
  refuses : ∀ service, latest = some (service, false) → ∀ name value timestamp write,
    (s.send name value timestamp write).1 = .error notEstablished

/-- The name of the host is resolved, or there is no connection to lose. -/
def Resolves (s : Connection) (c : Call) : Prop :=
  ∀ what, c = .connect (.unresolved what) → s.connected = false

variable {latest : Latest} {s t : Connection} {c : Call}

theorem send_of_not_connected (h : s.connected = false) (name value : Str) (timestamp : ℕ)
    (write : Write) : s.send name value timestamp write = (.error notEstablished, s) := by
  unfold send
  rw [h]
  rfl

theorem honest_of_not_connected (h : s.connected = false) (latest : Latest) :
    Honest latest s where
  backed hconnected := by
    rw [h] at hconnected
    exact nomatch hconnected
  refuses _ _ name value timestamp write := by
    rw [send_of_not_connected h]

theorem honest_established (latest : Latest) (s : Connection) :
    Honest (note latest s (.connect .established)) (s.connect .established).2 where
  backed _ := ⟨_, rfl, rfl, rfl, rfl⟩
  refuses _ h := nomatch h

theorem send_keeps (name value : Str) (timestamp : ℕ) (write : Write) (s : Connection) :
    ∃ text : Socket → Str, (s.send name value timestamp write).2 =
      { s with socket := s.socket.map fun socket => { socket with text := text socket } } := by
  obtain ⟨connected, ioService, socket, made⟩ := s
  cases connected with
  | false => exact ⟨Socket.text, by cases socket <;> rfl⟩
  | true =>
    cases socket with
    | none => exact ⟨Socket.text, rfl⟩
    | some socket => cases write <;> exact ⟨fun _ => _, rfl⟩

theorem Honest.send (h : Honest latest s) (name value : Str) (timestamp : ℕ) (write : Write) :
    Honest latest (s.send name value timestamp write).2 := by
  cases hconnected : s.connected with
  | false =>
    rw [send_of_not_connected hconnected]
    exact h
  | true =>
    obtain ⟨socket, hsocket, hup, hservice, hlatest⟩ := h.backed hconnected
    obtain ⟨text, hkeeps⟩ := send_keeps name value timestamp write s
    rw [hkeeps]
    constructor
    case backed =>
      intro _
      exact ⟨{ socket with text := text socket }, by rw [hsocket]; rfl, hup, hservice, hlatest⟩
    case refuses =>
      intro service hfailed
      exact nomatch hlatest.symm.trans hfailed

theorem Honest.perform (h : Honest latest s) (hc : Resolves s c) :
    Honest (note latest s c) (s.perform c) := by
  cases c with
  | connect outcome =>
    cases outcome with
    | unresolved what =>
      have hconnected : (s.perform (.connect (.unresolved what))).connected = false := hc what rfl
      exact honest_of_not_connected hconnected _
    | refused message => exact honest_of_not_connected rfl _
    | established => exact honest_established latest s
  | send name value timestamp write => exact h.send name value timestamp write
  | close => exact honest_of_not_connected rfl _

theorem Honest.not_connected_of_failed {service : ℕ} (h : Honest (some (service, false)) s) :
    s.connected = false := by
  by_contra hconnected
  obtain ⟨socket, -, -, -, hlatest⟩ := h.backed (eq_true_of_ne_false hconnected)
  have hsuccess : false = true := congrArg Prod.snd (Option.some.inj hlatest)
  exact Bool.false_ne_true hsuccess

theorem Honest.resolves (h : Honest (note latest s c) (s.perform c)) : Resolves s c := by
  intro what hc
  subst hc
  exact h.not_connected_of_failed

/-- In every run the sender is honest in every state if and only if no `connect` fails to resolve
the name while the sender is connected. -/
theorem always_honest_iff (cs : List Call) :
    Machine.Always (Machine.observe step note) (fun x => Honest x.1 x.2) (none, init) cs ↔
      Machine.Along step Resolves init cs := by
  constructor
  · intro h
    refine Machine.along_observe.mp (Machine.along_of_always ?_ h)
    rintro ⟨latest, s⟩ c _ hnext
    exact (hnext _ rfl).resolves
  · intro h
    refine Machine.always_observe_of_along (P := Honest) ?_ (honest_of_not_connected rfl none) h
    intro latest s c t hs hc hstep
    cases hstep
    exact hs.perform hc

/-- The second `connect` finds no such host, and the sender still claims the first connection. -/
theorem claims_old_connection :
    ¬Machine.Always (Machine.observe step note) (fun x => Honest x.1 x.2) (none, init)
      [.connect .established, .connect (.unresolved (str "Host not found"))] := by
  intro h
  have hlost := (h.last rfl).not_connected_of_failed
  exact Bool.false_ne_true hlost.symm

end Connection
end CppMetrics.GraphiteSenderTCP
