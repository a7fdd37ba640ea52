import CppMetrics.Graphite.MetricPaths
import CppMetrics.Graphite.SenderConnection

/-! The reporter over the TCP sender: what the calls of a report find the connection in, and what a
server gets of the report when the network fails anywhere. -/

namespace CppMetrics.GraphiteReporter

open GraphiteSenderTCP Fallible Delimited

/-- What the network and the metrics do during one report: at the connecting, and at its `n`-th
operation where that is a read or a write. -/
structure Network where
  resolution : Resolution
  read : ℕ → Option Exception
  write : ℕ → Write

def exceptionOf : Failure → Exception
  | .error (.runtimeError what) => .std what
  | .systemError what => .std what
  -- undefined behaviour
  | .noSocket => .other

def thrown : Except Failure Unit → Option Exception
  | .ok _ => none
  | .error f => some (exceptionOf f)

namespace Network

/-- What the `n`-th operation throws, and the connection after it. -/
def respond (net : Network) (n : ℕ) (s : Connection) : Operation → Option Exception × Connection
  | .connect => (thrown (s.connect net.resolution).1, (s.connect net.resolution).2)
  | .read _ => (net.read n, s)
  | .send path value timestamp =>
    (thrown (s.send path value timestamp (net.write n)).1,
      (s.send path value timestamp (net.write n)).2)
  | .close => (none, s.close)

def faults (net : Network) : ℕ → Connection → List Operation → ℕ → Option Exception
  | _, _, [], _ => none
  | n, s, op :: _, 0 => (net.respond n s op).1
  | n, s, op :: ops, k + 1 => net.faults (n + 1) (net.respond n s op).2 ops k

def exchange (net : Network) : ℕ → Connection → List Operation →
    List (Connection × Operation) × Connection
  | _, s, [] => ([], s)
  | n, s, op :: ops =>
    ((s, op) :: (net.exchange (n + 1) (net.respond n s op).2 ops).1,
      (net.exchange (n + 1) (net.respond n s op).2 ops).2)

def replies (net : Network) : ℕ → Connection → List Operation → List (Operation × Option Exception)
  | _, _, [] => []
  | n, s, op :: ops =>
    (op, (net.respond n s op).1) :: net.replies (n + 1) (net.respond n s op).2 ops

end Network

variable {D : Type}

structure Report (D : Type) where
  objects : Objects D
  maps : ScheduledReporter.Report.Maps
  timestamp : ℕ
  network : Network

namespace Report

variable (r : Reporter D)

def run (s : Connection) (p : Report D) : Run D where
  objects := p.objects
  maps := p.maps
  timestamp := p.timestamp
  faults := p.network.faults 0 s (r.operations p.objects p.maps p.timestamp)

def perform (s : Connection) (p : Report D) : List (Connection × Operation) × Connection :=
  p.network.exchange 0 s ((r.journalOf (p.run r s)).map Prod.fst)

def performAll : Connection → List (Report D) → List (Connection × Operation) × Connection
  | s, [] => ([], s)
  | s, p :: ps =>
    ((p.perform r s).1 ++ (performAll (p.perform r s).2 ps).1, (performAll (p.perform r s).2 ps).2)

end Report

/-- The texts that have reached the server when their connections are closed. -/
def delivered (met : List (Connection × Operation)) : List Str :=
  met.filterMap fun
    | (s, .close) => s.socket.bind fun socket => if socket.connected then some socket.text else none
    | _ => none

def Operation.sample : Operation → Option Sample
  | .send path value timestamp => some ⟨path, value, timestamp⟩
  | _ => none

def samplesOf (ops : List Operation) : List Sample := ops.filterMap Operation.sample

def lineOf (x : Sample) : Str := line x.path x.value x.timestamp

/-! ### The states of the connection -/

structure Closed (s : Connection) : Prop where
  connected : s.connected = false
  socket : s.socket = none
  ioService : s.ioService = none

structure Live (s : Connection) : Prop where
  connected : s.connected = true
  socket : ∃ socket, s.socket = some socket ∧ socket.connected = true ∧
    s.ioService = some socket.service

/-- `connect` makes a new service, which would leave an old socket without its own. -/
def Fits (s : Connection) : Operation → Prop
  | .connect => Closed s
  | .send .. => Live s
  | _ => True

theorem Closed.init : Closed Connection.init := ⟨rfl, rfl, rfl⟩

theorem Closed.close (s : Connection) : Closed s.close := ⟨rfl, rfl, rfl⟩

section

variable {net : Network} {n : ℕ} {s : Connection} {ops : List Operation}

/-- The sender claims no connection without a socket. -/
def Backed (s : Connection) : Prop := s.connected = true → s.socket ≠ none

theorem Closed.backed (hs : Closed s) : Backed s := fun h => by
  cases h.symm.trans hs.connected

theorem respond_backed (hs : Backed s) (op : Operation) : Backed (net.respond n s op).2 := by
  cases op with
  | connect =>
    cases hres : net.resolution with
    | unresolved what =>
      intro h
      simp only [Network.respond, hres] at h ⊢
      exact hs h
    | refused | established => simp [Backed, Network.respond, hres, Connection.connect]
  | read => exact hs
  | send path value timestamp =>
    obtain ⟨text, hkeeps⟩ := Connection.send_keeps path value timestamp (net.write n) s
    simp only [Network.respond, hkeeps, Backed]
    intro hconnected
    simpa using hs hconnected
  | close => intro h; cases h

theorem respond_ne_other (hs : Backed s) (hread : net.read n ≠ some .other) (op : Operation) :
    (net.respond n s op).1 ≠ some .other := by
  cases op with
  | connect => cases hres : net.resolution <;>
      simp [Network.respond, hres, Connection.connect, thrown, exceptionOf]
  | read => exact hread
  | close => simp [Network.respond]
  | send path value timestamp =>
    cases hconnected : s.connected with
    | false =>
      simp [Network.respond, Connection.send_of_not_connected hconnected, thrown, exceptionOf,
        Connection.notEstablished]
    | true =>
      obtain ⟨socket, hsocket⟩ := Option.ne_none_iff_exists'.mp (hs hconnected)
      cases hwrite : net.write n <;>
        simp [Network.respond, Connection.send, hconnected, hsocket, hwrite, thrown, exceptionOf]

theorem faults_ne_other (hs : Backed s) (hread : ∀ n, net.read n ≠ some .other) (k : ℕ) :
    net.faults n s ops k ≠ some .other := by
  induction ops generalizing n s k with
  | nil => simp [Network.faults]
  | cons op ops ih =>
    cases k with
    | zero => exact respond_ne_other hs (hread n) op
    | succ k => exact ih (respond_backed hs op) k

theorem firstFault_ne {faults : ℕ → Option Exception} {e : Exception}
    (h : ∀ k, faults k ≠ some e) (m : ℕ) : firstFault faults m ≠ some e := by
  induction m generalizing faults with
  | zero => simp [firstFault]
  | succ m ih =>
    rw [firstFault]
    cases h0 : faults 0 with
    | none => exact ih fun k => h (k + 1)
    | some e' => rw [Option.some_or, ← h0]; exact h 0

end

/-! ### One report -/

def up (service : ℕ) (text : Str) (made : ℕ) : Connection :=
  ⟨true, some service, some ⟨service, true, text⟩, made⟩

theorem live_up (service : ℕ) (text : Str) (made : ℕ) : Live (up service text made) :=
  ⟨rfl, _, rfl, rfl, rfl⟩

section

variable {net : Network} {n : ℕ} {s : Connection} {ops : List Operation}

/-- The loop is closed: what a report meets in its operations is what the sender replies. -/
theorem performed_eq_replies :
    performed (net.faults n s ops) ops =
      net.replies n s ((performed (net.faults n s ops) ops).map Prod.fst) := by
  induction ops generalizing n s with
  | nil => rfl
  | cons op ops ih =>
    cases h0 : (net.respond n s op).1 with
    | none =>
      have hhere : net.faults n s (op :: ops) 0 = none := h0
      simp only [performed, hhere, List.map_cons, Network.replies, h0]
      exact congrArg ((op, none) :: ·) ih
    | some e =>
      have hhere : net.faults n s (op :: ops) 0 = some e := h0
      simp only [performed, hhere, List.map_cons, List.map_nil, Network.replies, h0]

theorem exchange_append (xs ys : List Operation) :
    net.exchange n s (xs ++ ys) =
      ((net.exchange n s xs).1 ++ (net.exchange (n + xs.length) (net.exchange n s xs).2 ys).1,
        (net.exchange (n + xs.length) (net.exchange n s xs).2 ys).2) := by
  induction xs generalizing n s with
  | nil => rfl
  | cons op xs ih =>
    rw [List.cons_append]
    simp only [Network.exchange, ih, List.length_cons, List.cons_append]
    rw [Nat.add_assoc, Nat.add_comm 1]

theorem exchange_up (net : Network) (n service made : ℕ) (text : Str)
    (hops : ∀ op ∈ ops, op ≠ .connect ∧ op ≠ .close) :
    let met := net.exchange n (up service text made)
      ((performed (net.faults n (up service text made) ops) ops).map Prod.fst)
    (∀ x ∈ met.1, Fits x.1 x.2) ∧ delivered met.1 = [] ∧
      ∃ w, met.2 = up service (text ++ w) made ∧ w <+: (samplesOf ops).flatMap lineOf ∧
        ((∀ m, net.read m = none) → (∀ m, net.write m = .done) →
          w = (samplesOf ops).flatMap lineOf) := by
  induction ops generalizing n text with
  | nil =>
    refine ⟨fun x hx => absurd hx List.not_mem_nil, rfl, [], ?_, List.nil_prefix, fun _ _ => rfl⟩
    rw [List.append_nil]
    rfl
  | cons op ops ih =>
    have hops' : ∀ op ∈ ops, op ≠ .connect ∧ op ≠ .close :=
      fun op hop => hops op (List.mem_cons_of_mem _ hop)
    cases op with
    | connect => exact absurd rfl (hops _ List.mem_cons_self).1
    | close => exact absurd rfl (hops _ List.mem_cons_self).2
    | read name =>
      cases hread : net.read n with
      | none =>
        have hhere : net.faults n (up service text made) (.read name :: ops) 0 = none := hread
        obtain ⟨hfits, hdelivered, w, hstate, hw, hall⟩ := ih (n + 1) text hops'
        simp only [performed, hhere, List.map_cons, Network.exchange]
        refine ⟨fun x hx => ?_, hdelivered, w, hstate, hw, hall⟩
        rcases List.mem_cons.mp hx with rfl | hx
        · trivial
        · exact hfits x hx
      | some e =>
        have hhere : net.faults n (up service text made) (.read name :: ops) 0 = some e := hread
        simp only [performed, hhere, List.map_cons, List.map_nil, Network.exchange]
        refine ⟨fun x hx => ?_, rfl, [], ?_, List.nil_prefix, fun hnone => ?_⟩
        · rw [List.mem_singleton.mp hx]
          trivial
        · rw [List.append_nil]
          rfl
        · cases hread.symm.trans (hnone n)
    | send path value timestamp =>
      have hstream : (samplesOf (.send path value timestamp :: ops)).flatMap lineOf =
          line path value timestamp ++ (samplesOf ops).flatMap lineOf := rfl
      rw [hstream]
      cases hwrite : net.write n with
      | done =>
        have hrespond : net.respond n (up service text made) (.send path value timestamp) =
            (none, up service (text ++ line path value timestamp) made) := by
          simp only [Network.respond, up, Connection.send, hwrite]
          rfl
        obtain ⟨hfits, hdelivered, w, hstate, hw, hall⟩ :=
          ih (n + 1) (text ++ line path value timestamp) hops'
        simp only [performed, Network.faults, hrespond, List.map_cons, Network.exchange]
        refine ⟨fun x hx => ?_, hdelivered, line path value timestamp ++ w, ?_, ?_, fun hr hd => ?_⟩
        · rcases List.mem_cons.mp hx with rfl | hx
          · exact live_up service text made
          · exact hfits x hx
        · rw [← List.append_assoc]
          exact hstate
        · exact (List.prefix_append_right_inj _).mpr hw
        · rw [hall hr hd]
      | broken what bytes =>
        have hrespond : net.respond n (up service text made) (.send path value timestamp) =
            (some (.std what),
              up service (text ++ (line path value timestamp).take bytes) made) := by
          simp only [Network.respond, up, Connection.send, hwrite]
          rfl
        simp only [performed, Network.faults, hrespond, List.map_cons, List.map_nil,
          Network.exchange]
        refine ⟨fun x hx => ?_, rfl, _, rfl, ?_, fun _ hdone => ?_⟩
        · rw [List.mem_singleton.mp hx]
          exact live_up service text made
        · exact (List.take_prefix _ _).trans (List.prefix_append _ _)
        · cases hwrite.symm.trans (hdone n)

end

structure Network.Fine (net : Network) : Prop where
  established : net.resolution = .established
  read : ∀ n, net.read n = none
  write : ∀ n, net.write n = .done

structure Outcome (r : Reporter D) (s : Connection) (p : Report D) : Prop where
  closed : Closed (p.perform r s).2
  fits : ∀ x ∈ (p.perform r s).1, Fits x.1 x.2
  one : (delivered (p.perform r s).1).length ≤ 1
  begins : ∀ text ∈ delivered (p.perform r s).1,
    text <+: (samplesOf (r.operations p.objects p.maps p.timestamp)).flatMap lineOf
  whole : p.network.Fine → delivered (p.perform r s).1 =
    [(samplesOf (r.operations p.objects p.maps p.timestamp)).flatMap lineOf]

section

variable {r : Reporter D} {s : Connection} {p : Report D}

theorem throwsStd_run (hs : Closed s) (hread : ∀ n, p.network.read n ≠ some .other) :
    ThrowsStd r (p.run r s) :=
  firstFault_ne (faults_ne_other hs.backed hread) _

theorem perform_eq (hs : Closed s) (hread : ∀ n, p.network.read n ≠ some .other) :
    p.perform r s = p.network.exchange 0 s
      ((performed (p.run r s).faults (r.operationsOf (p.run r s))).map Prod.fst ++ [.close]) := by
  have hstd := throwsStd_run (r := r) hs hread
  rw [Report.perform, Reporter.journalOf, r.journal_eq, List.map_append]
  congr 2
  unfold ThrowsStd at hstd
  change firstFault (p.run r s).faults
    (r.operations p.objects p.maps p.timestamp).length ≠ _ at hstd
  change (Reporter.closing (firstFault (p.run r s).faults
    (r.operations p.objects p.maps p.timestamp).length)).map Prod.fst = _
  cases hfault : firstFault (p.run r s).faults
      (r.operations p.objects p.maps p.timestamp).length with
  | none => rfl
  | some e =>
    cases e with
    | std what => rfl
    | other => exact absurd hfault hstd

theorem outcome_of_refused (hs : Closed s) (hread : ∀ n, p.network.read n ≠ some .other)
    {e : Exception} (he : thrown (s.connect p.network.resolution).1 = some e)
    (hsocket : ∀ socket, (s.connect p.network.resolution).2.socket = some socket →
      socket.connected = false) (hfail : p.network.resolution ≠ .established) :
    Outcome r s p := by
  obtain ⟨body, hops, -⟩ := operations_inside r (p.run r s)
  have hhere : (p.run r s).faults 0 = some e := by
    change p.network.faults 0 s (r.operationsOf (p.run r s)) 0 = some e
    rw [hops]
    exact he
  have hperformed : performed (p.run r s).faults (r.operationsOf (p.run r s)) =
      [(.connect, some e)] := by
    rw [hops, performed, hhere]
  have hperform : p.perform r s = ([(s, .connect), ((s.connect p.network.resolution).2, .close)],
      (s.connect p.network.resolution).2.close) := by
    rw [perform_eq hs hread, hperformed]
    rfl
  have hnone : delivered (p.perform r s).1 = [] := by
    rw [hperform]
    cases hsock : (s.connect p.network.resolution).2.socket with
    | none => simp [delivered, hsock]
    | some socket => simp [delivered, hsock, hsocket socket hsock]
  refine ⟨?_, fun x hx => ?_, ?_, fun text htext => ?_, fun hfine => absurd hfine.established hfail⟩
  · rw [hperform]
    exact Closed.close _
  · rw [hperform, List.mem_cons, List.mem_singleton] at hx
    rcases hx with rfl | rfl
    · exact hs
    · trivial
  · rw [hnone]
    exact Nat.zero_le 1
  · rw [hnone] at htext
    exact absurd htext List.not_mem_nil

theorem outcome_of_established (hs : Closed s) (hread : ∀ n, p.network.read n ≠ some .other)
    (hnet : p.network.resolution = .established) : Outcome r s p := by
  obtain ⟨body, hops, hbody⟩ := operations_inside r (p.run r s)
  have hconnect : s.connect p.network.resolution =
      (.ok (), up (s.made + 1) [] (s.made + 1)) := by
    rw [hnet, Connection.connect, up]
  have hhere : (p.run r s).faults 0 = none := by
    change p.network.faults 0 s (r.operationsOf (p.run r s)) 0 = none
    rw [hops, Network.faults, Network.respond, hconnect]
    rfl
  have hlater : (fun n => (p.run r s).faults (n + 1)) =
      p.network.faults 1 (up (s.made + 1) [] (s.made + 1)) body := by
    funext n
    change p.network.faults 0 s (r.operationsOf (p.run r s)) (n + 1) = _
    rw [hops, Network.faults, Network.respond, hconnect]
  obtain ⟨hfits, hnone, w, hstate, hw, hall⟩ := exchange_up p.network 1 (s.made + 1)
    (s.made + 1) [] hbody
  generalize hdone : (performed (p.network.faults 1 (up (s.made + 1) [] (s.made + 1)) body)
    body).map Prod.fst = done at hfits hnone hstate
  have hperformed : (performed (p.run r s).faults (r.operationsOf (p.run r s))).map Prod.fst =
      .connect :: done := by
    rw [hops, performed, hhere, hlater, List.map_cons, hdone]
  have hstream : (samplesOf (r.operations p.objects p.maps p.timestamp)).flatMap lineOf =
      (samplesOf body).flatMap lineOf := by
    change (samplesOf (r.operationsOf (p.run r s))).flatMap lineOf = _
    rw [hops]
    rfl
  have hperform : p.perform r s =
      ((s, .connect) :: (p.network.exchange 1 (up (s.made + 1) [] (s.made + 1)) done).1 ++
        [(up (s.made + 1) w (s.made + 1), .close)], (up (s.made + 1) w (s.made + 1)).close) := by
    have hrespond : (p.network.respond 0 s .connect).2 = up (s.made + 1) [] (s.made + 1) := by
      simp only [Network.respond, hconnect]
    rw [perform_eq hs hread, hperformed, List.cons_append, Network.exchange, hrespond,
      exchange_append, hstate]
    rfl
  have hdelivered : delivered (p.perform r s).1 = [w] := by
    rw [hperform, delivered, List.filterMap_append, List.filterMap_cons_none rfl]
    change delivered _ ++ _ = _
    rw [hnone]
    rfl
  refine ⟨?_, fun x hx => ?_, ?_, fun text htext => ?_, fun hfine => ?_⟩
  · rw [hperform]
    exact Closed.close _
  · rw [hperform, List.mem_append, List.mem_cons, List.mem_singleton] at hx
    rcases hx with (rfl | hx) | rfl
    · exact hs
    · exact hfits x hx
    · trivial
  · rw [hdelivered]
    exact le_rfl
  · rw [hdelivered, List.mem_singleton] at htext
    rw [htext, hstream]
    exact hw
  · rw [hdelivered, hstream, hall hfine.read hfine.write]

theorem outcome (hs : Closed s) (hread : ∀ n, p.network.read n ≠ some .other) : Outcome r s p := by
  cases hnet : p.network.resolution with
  | established => exact outcome_of_established hs hread hnet
  | unresolved what =>
    refine outcome_of_refused (e := .std what) hs hread ?_ (fun socket hsocket => ?_) ?_
    · rw [hnet]
      rfl
    · rw [hnet] at hsocket
      cases hs.socket.symm.trans hsocket
    · simp [hnet]
  | refused message =>
    refine outcome_of_refused (e := .std (str "Connect() error, reason: " ++ message)) hs hread ?_
      (fun socket hsocket => ?_) ?_
    · rw [hnet]
      rfl
    · rw [hnet] at hsocket
      cases hsocket
      rfl
    · simp [hnet]

end

/-! ### Any number of reports -/

theorem performAll_fits {r : Reporter D} {s : Connection} {ps : List (Report D)} (hs : Closed s)
    (hread : ∀ p ∈ ps, ∀ n, p.network.read n ≠ some .other) :
    (∀ x ∈ (Report.performAll r s ps).1, Fits x.1 x.2) ∧ Closed (Report.performAll r s ps).2 := by
  induction ps generalizing s with
  | nil => exact ⟨fun x hx => absurd hx List.not_mem_nil, hs⟩
  | cons p ps ih =>
    have hone : Outcome r s p := outcome hs (hread p List.mem_cons_self)
    obtain ⟨hfits, hclosed⟩ := ih hone.closed fun q hq => hread q (List.mem_cons_of_mem p hq)
    refine ⟨fun x hx => ?_, hclosed⟩
    rcases List.mem_append.mp hx with hx | hx
    · exact hone.fits x hx
    · exact hfits x hx

/-- As long as reading a metric throws nothing but `std::exception`s, and whatever the network
does: every `connect` of every report finds the sender without a socket and a service, every `send`
finds a connected socket of the current service, and the last report leaves nothing open. -/
theorem reports_keep_connection (r : Reporter D) (ps : List (Report D))
    (hread : ∀ p ∈ ps, ∀ n, p.network.read n ≠ some .other) :
    (∀ x ∈ (Report.performAll r Connection.init ps).1, Fits x.1 x.2) ∧
      Closed (Report.performAll r Connection.init ps).2 :=
  performAll_fits Closed.init hread

/-- A report of one gauge over a connection that breaks after three bytes. -/
def brokenReport : Report Unit :=
  ⟨throwingGauge.objects, throwingGauge.maps, 7,
    ⟨.established, fun _ => none, fun _ => .broken (str "Broken pipe") 3⟩⟩

theorem reports_keep_connection_broken :
    (∀ x ∈ (Report.performAll plain Connection.init [brokenReport, brokenReport]).1, Fits x.1 x.2) ∧
      Closed (Report.performAll plain Connection.init [brokenReport, brokenReport]).2 := by
  refine reports_keep_connection plain [brokenReport, brokenReport] fun p hp n => ?_
  rw [List.mem_cons, List.mem_singleton, or_self] at hp
  rw [hp]
  intro h
  cases h

end CppMetrics.GraphiteReporter
