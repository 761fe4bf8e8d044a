import Gazelle.Ltran.Connections

/-!
# The stack that the packets of a connection go to

`tcp_handle` gives the packets of a known connection to the stack of the connection, and the first
packet to the stack of the listener with the fewest connections.

* `LtranTables.EndsAffinity`: the steps after which a quintuple may go to another stack;
* `connection_affinity`: between two such steps all packets of a quintuple go to one stack, and a
  quintuple without a connection goes to the listener that it should, or nowhere;
* `connection_affinity_no_memory`: without memory for the connection, the packet is lost.
-/

namespace Gazelle

namespace LtranTables

variable (hash : LtranJhash) (s : LtranTables)

/-- The packets of `q` may go to another stack afterwards: its connection is closed, replaced, too
old, or its instance comes or goes. -/
def EndsAffinity (q : GazelleQuintuple) : TablesAction → Prop
  | .message _ msg _ =>
    msgToQuintuple msg = packetQuintuple q ∧
      (msg.type = .tcpConnectClose ∨
        msg.type = .tcpConnect ∧ ∃ conn,
          s.gazelleConnGetByQuintuple hash (packetQuintuple q) = some conn ∧
            conn.connTimeout.toInt < 0)
  | .deleteAgingConn locked =>
    locked ∧ ∃ conn,
      s.gazelleConnGetByQuintuple hash (packetQuintuple q) = some conn ∧ ageConn conn = none
  | .instanceTick i =>
    ∃ conn, s.gazelleConnGetByQuintuple hash (packetQuintuple q) = some conn ∧
      conn.instanceCurTick = some i
  | _ => False

/-- The runs that continue from a state. -/
def systemFrom : Transition.System LtranTables TablesAction where
  Init t := t = s
  step := step hash

/-- The packets of `q` go to `stack`. -/
def GoesTo (q : GazelleQuintuple) (stack : Option ℕ) : Prop :=
  ∃ conn, s.gazelleConnGetByQuintuple hash (packetQuintuple q) = some conn ∧ conn.stack = stack

variable {hash} {s} {s' : LtranTables} {q : GazelleQuintuple} {malloc : Option ℕ}
  {stack : Option ℕ}

/-! ## Known connections -/

/-- A packet of a known connection goes to its stack. -/
theorem GoesTo.tcpHandle (h : s.GoesTo hash q stack) :
    s.tcpHandle hash q malloc = (s, some stack) := by
  obtain ⟨conn, hget, rfl⟩ := h
  simp only [LtranTables.tcpHandle, hget]

/-- A packet that is given to a stack leaves a connection of this stack. -/
theorem ConnInv.goesTo_of_tcpHandle (h : s.ConnInv hash) (hfresh : s.fresh malloc)
    (hpacket : (s.tcpHandle hash q malloc).2 = some stack) :
    (s.tcpHandle hash q malloc).1.GoesTo hash q stack := by
  have hstep := (h.tcpHandle (q := q) hfresh).2
  simp only [ConnStep, hpacket] at hstep
  cases hget : s.gazelleConnGetByQuintuple hash (packetQuintuple q) with
  | some conn =>
    have hknown : s.GoesTo hash q conn.stack := ⟨conn, hget, rfl⟩
    rw [hknown.tcpHandle] at hpacket ⊢
    obtain rfl := Option.some.inj hpacket
    exact hknown
  | none =>
    rw [hget] at hstep
    obtain ⟨conn, rfl, -, heq⟩ := hstep
    exact ⟨conn, by rw [heq, Function.update_self], rfl⟩

/-- The stack stays when another quintuple is changed. -/
theorem GoesTo.update (h : s.GoesTo hash q stack) {k : GazelleQuintuple}
    {value : Option GazelleTcpConn}
    (heq : s'.gazelleConnGetByQuintuple hash =
      Function.update (s.gazelleConnGetByQuintuple hash) k value)
    (hvalue : k = packetQuintuple q → ∃ conn, value = some conn ∧ conn.stack = stack) :
    s'.GoesTo hash q stack := by
  by_cases hk : packetQuintuple q = k
  · subst hk
    obtain ⟨conn, rfl, hstack⟩ := hvalue rfl
    exact ⟨conn, by rw [heq, Function.update_self], hstack⟩
  · obtain ⟨conn, hget, hstack⟩ := h
    exact ⟨conn, by rw [heq, Function.update_of_ne hk, hget], hstack⟩

/-- The stack stays when the map does. -/
theorem GoesTo.congr (h : s.GoesTo hash q stack)
    (heq : s'.gazelleConnGetByQuintuple hash = s.gazelleConnGetByQuintuple hash) :
    s'.GoesTo hash q stack := by
  obtain ⟨conn, hget, hstack⟩ := h
  exact ⟨conn, by rw [heq, hget], hstack⟩

/-- A step that does not end the affinity keeps it. -/
theorem GoesTo.step (h : s.GoesTo hash q stack) (hinv : s.ConnInv hash) {act : TablesAction}
    (hrevive : s.RevivesNothing act) (hends : ¬ s.EndsAffinity hash q act)
    (hstep : s.step hash act = some s') : s'.GoesTo hash q stack := by
  have hmap := (hinv.step hrevive hstep).2
  obtain ⟨conn, hget, hstack⟩ := h
  have h : s.GoesTo hash q stack := ⟨conn, hget, hstack⟩
  cases act with
  | packet p malloc =>
    simp only [ConnStep] at hmap
    split at hmap
    · rename_i hnone hpacket
      obtain ⟨new, -, -, heq⟩ := hmap
      -- only a quintuple without a connection is changed
      refine h.update heq fun hsame => ?_
      rw [hsame, hget] at hnone
      cases hnone
    · exact h.congr hmap
  | message sender msg alloc =>
    simp only [ConnStep] at hmap
    simp only [EndsAffinity, not_and, not_or, not_exists, not_lt] at hends
    cases htype : msg.type with
    | tcpListen =>
      simp only [htype] at hmap
      obtain ⟨sock, heq⟩ := hmap
      exact ⟨{ conn with sock := sock conn }, by rw [heq]; simp [hget], hstack⟩
    | tcpListenClose =>
      simp only [htype] at hmap
      exact h.congr hmap
    | tcpConnect =>
      simp only [htype] at hmap
      refine h.update hmap fun hsame => ?_
      have htimeout := (hends hsame).2 htype conn hget
      rw [hsame, hget]
      exact ⟨{ conn with connTimeout := -1 }, if_pos htimeout, hstack⟩
    | tcpConnectClose =>
      simp only [htype] at hmap
      exact h.update hmap fun hsame => absurd htype (hends hsame).1
    | unknown =>
      simp only [htype] at hmap
      exact h.congr hmap
  | deleteAgingConn locked =>
    simp only [ConnStep] at hmap
    cases locked with
    | false => exact h.congr hmap
    | true =>
      cases hage : ageConn conn with
      | none => exact absurd ⟨rfl, conn, hget, hage⟩ hends
      | some old =>
        refine ⟨old, by rw [hmap]; simp [hget, hage], ?_⟩
        unfold ageConn at hage
        split_ifs at hage <;> rw [← Option.some.inj hage] <;> exact hstack
  | detectConnLogout locked => exact h.congr hmap
  | detectSockLogout locked => exact h.congr hmap
  | instanceTick i =>
    obtain rfl := Option.some.inj hstep
    refine ⟨conn, ?_, hstack⟩
    have hon : s.connIsOn conn := (hinv.connGet_eq_some.1 hget).2.1
    have hcell : conn.instanceCurTick ≠ some i := fun hcell => hends ⟨conn, hget, hcell⟩
    simp only [ConnStep] at hmap
    rw [hmap]
    simp only [hget, Option.filter_eq_some_iff, true_and]
    -- the tick of the connection's instance is another one
    revert hon
    cases hcur : conn.instanceCurTick with
    | none => simp [connIsOn, instanceIsOn, hcur]
    | some j =>
      have hne : j ≠ i := fun hsame => hcell (by rw [hcur, hsame])
      simp [connIsOn, instanceIsOn, hcur, Function.update_of_ne hne]

/-- All packets of a quintuple go to one stack until a step ends the affinity. -/
theorem GoesTo.run (h : s.GoesTo hash q stack) (hinv : s.ConnInv hash)
    (hs : (systemFrom hash s).ReachableUnder
      (fun s act => s.RevivesNothing act ∧ ¬ s.EndsAffinity hash q act) s') :
    s'.GoesTo hash q stack := by
  have hboth : s'.ConnInv hash ∧ s'.GoesTo hash q stack := by
    refine Transition.System.invariant_under
      (I := fun s => s.ConnInv hash ∧ s.GoesTo hash q stack) ?_ ?_ hs
    · rintro _ rfl
      exact ⟨hinv, h⟩
    · intro _ _ _ ih hcond hstep
      exact ⟨(ih.1.step hcond.1 hstep).1, ih.2.step ih.1 hcond.1 hcond.2 hstep⟩
  exact hboth.2

/-! ## New connections -/

/-- A packet without a connection goes to a listener with the fewest connections. -/
theorem ConnInv.tcpHandle_new (h : s.ConnInv hash)
    (hget : s.gazelleConnGetByQuintuple hash (packetQuintuple q) = none)
    (hpacket : (s.tcpHandle hash q malloc).2 = some stack) :
    ∃ sock, s.Eligible q.dstIp q.dstPort sock ∧
      sock.tcpConNum.toNat < gazelleStackMaxTcpConNum ∧
      (∀ t, s.Eligible q.dstIp q.dstPort t → sock.tcpConNum ≤ t.tcpConNum) ∧
      stack = sock.stack := by
  rcases tcpHandle_cases hash s q malloc with ⟨conn, hsome, -⟩ | ⟨-, ⟨-, heq⟩ |
    ⟨sock, hmin, ⟨-, heq⟩ | ⟨a, -, -, heq⟩⟩⟩
  · rw [hget] at hsome
    cases hsome
  · rw [heq] at hpacket
    cases hpacket
  · rw [heq] at hpacket
    cases hpacket
  · rw [heq] at hpacket
    obtain ⟨heligible, hlt, hleast⟩ := gazelleSockGetByMinConn_some h.socks hmin
    exact ⟨sock, heligible, hlt, hleast, (Option.some.inj hpacket).symm⟩

/-- With room and memory for the connection, a packet only goes nowhere when no listener will have
it. -/
theorem ConnInv.tcpHandle_eq_none (h : s.ConnInv hash)
    (hget : s.gazelleConnGetByQuintuple hash (packetQuintuple q) = none)
    (hroom : s.connHtable.curNum ≠ s.connHtable.maxNum) (hmalloc : malloc ≠ none) :
    (s.tcpHandle hash q malloc).2 = none ↔
      ∀ t, s.Eligible q.dstIp q.dstPort t → gazelleStackMaxTcpConNum ≤ t.tcpConNum.toNat := by
  rcases tcpHandle_cases hash s q malloc with ⟨conn, hsome, -⟩ | ⟨-, ⟨hmin, heq⟩ |
    ⟨sock, hmin, ⟨hfail, -⟩ | ⟨a, -, -, heq⟩⟩⟩
  · rw [hget] at hsome
    cases hsome
  · rw [heq]
    exact ⟨fun _ _ ht => gazelleSockGetByMinConn_none h.socks hmin ht, fun _ => rfl⟩
  · rcases hfail with hfull | hnone
    · exact absurd hfull hroom
    · exact absurd hnone hmalloc
  · obtain ⟨heligible, hlt, -⟩ := gazelleSockGetByMinConn_some h.socks hmin
    rw [heq]
    constructor
    · intro hnone
      cases hnone
    · intro hall
      exact absurd (hall sock heligible) (Nat.not_le.2 hlt)

/-! ## Runs -/

/-- Once a packet was given to a stack, all later packets with its quintuple go to this stack, until
the connection is closed, is too old, is replaced, or its instance leaves. A packet without a
connection goes to the stack of a listener of its address and port that is on and has the fewest
connections; if there is room and memory for the connection, it goes nowhere only when there is no
such listener. -/
theorem connection_affinity (maxSockNum maxConnNum : BitVec 32)
    (hs : (system hash maxSockNum maxConnNum).ReachableUnder RevivesNothing s)
    (q : GazelleQuintuple) (malloc : Option ℕ) (hfresh : s.fresh malloc) :
    (∀ stack, (s.tcpHandle hash q malloc).2 = some stack →
      ∀ s', (systemFrom hash (s.tcpHandle hash q malloc).1).ReachableUnder
          (fun s act => s.RevivesNothing act ∧ ¬ s.EndsAffinity hash q act) s' →
        ∀ malloc', (s'.tcpHandle hash q malloc').2 = some stack) ∧
      (s.gazelleConnGetByQuintuple hash (packetQuintuple q) = none →
        (∀ stack, (s.tcpHandle hash q malloc).2 = some stack →
          ∃ sock, s.Eligible q.dstIp q.dstPort sock ∧
            sock.tcpConNum.toNat < gazelleStackMaxTcpConNum ∧
            (∀ t, s.Eligible q.dstIp q.dstPort t → sock.tcpConNum ≤ t.tcpConNum) ∧
            stack = sock.stack) ∧
          (s.connHtable.curNum ≠ s.connHtable.maxNum → malloc ≠ none →
            ((s.tcpHandle hash q malloc).2 = none ↔ ∀ t, s.Eligible q.dstIp q.dstPort t →
              gazelleStackMaxTcpConNum ≤ t.tcpConNum.toNat))) := by
  have h := connInv_of_reachable hs
  refine ⟨fun stack hpacket s' hs' malloc' => ?_, fun hget =>
    ⟨fun _ hpacket => h.tcpHandle_new hget hpacket,
      fun hroom hmalloc => h.tcpHandle_eq_none hget hroom hmalloc⟩⟩
  have hlater := (h.goesTo_of_tcpHandle hfresh hpacket).run (h.tcpHandle hfresh).1 hs'
  rw [hlater.tcpHandle]

/-- All entries in one chain. -/
private def oneBucketHash : LtranJhash := ⟨fun _ _ => 0, fun _ _ _ _ => 0⟩

/-- Empty tables, with the first tick at `1`. -/
private def emptyTables : LtranTables := create (fun _ => 1) 4096 gazelleMaxConnNum

/-- One listener. -/
private def listening : LtranTables :=
  emptyTables.tcpHashTableModify oneBucketHash
    ⟨1, 0, 7, some ⟨0, gazelleMaxInstanceNum_pos⟩, 1⟩
    (listenMsg ⟨0x0a01a8c0, 80, 7⟩) (some 100)

/-- The quintuple of a client of the listener. -/
private def clientQuintuple : GazelleQuintuple := ⟨0, 40000, 80, 0x0b01a8c0, 0x0a01a8c0⟩

/-- The client's first packet was received. -/
private def connected : LtranTables :=
  (listening.tcpHandle oneBucketHash clientQuintuple (some 101)).1

/-- All connections have aged. -/
private def aged : LtranTables := connected.gazelleDeleteAgingConn

private theorem listening_reachable :
    (system oneBucketHash 4096 gazelleMaxConnNum).ReachableUnder RevivesNothing listening := by
  have hfresh : emptyTables.fresh (some 100) = true := by decide +kernel
  have hinit : (system oneBucketHash 4096 gazelleMaxConnNum).Init emptyTables := ⟨fun _ => 1, rfl⟩
  have hstep := step_message oneBucketHash
    ⟨1, 0, 7, some ⟨0, gazelleMaxInstanceNum_pos⟩, 1⟩ (listenMsg ⟨0x0a01a8c0, 80, 7⟩) hfresh
  have hrevive : emptyTables.RevivesNothing
      (.message ⟨1, 0, 7, some ⟨0, gazelleMaxInstanceNum_pos⟩, 1⟩
      (listenMsg ⟨0x0a01a8c0, 80, 7⟩) (some 100)) := by
    simp only [RevivesNothing]
  refine .step (.init hinit) hrevive ?_
  rw [listening, ← hstep, system]

/-- What ageing does to a state. -/
private theorem systemFrom_step_aging (t : LtranTables) :
    (systemFrom hash t).step s (.deleteAgingConn true) = some s.gazelleDeleteAgingConn := rfl

private theorem aged_reachable : (systemFrom oneBucketHash connected).ReachableUnder
    (fun s act => s.RevivesNothing act ∧
      ¬ s.EndsAffinity oneBucketHash clientQuintuple act) aged := by
  refine .step (.init rfl) ⟨?_, ?_⟩ (systemFrom_step_aging connected)
  · simp only [RevivesNothing]
  · rintro ⟨-, conn, hget, hage⟩
    have hconn : connected.gazelleConnGetByQuintuple oneBucketHash
        (packetQuintuple clientQuintuple) =
          some ⟨101, 7, some 100, some 1, clientQuintuple, some 0, 1, 5⟩ := by decide +kernel
    rw [hconn] at hget
    obtain rfl := Option.some.inj hget
    exact absurd hage (by decide)

/-- The second packet of a connection goes to the stack of the first. -/
theorem connection_affinity_second :
    (aged.tcpHandle oneBucketHash clientQuintuple none).2 = some (some 1) :=
  (connection_affinity 4096 gazelleMaxConnNum listening_reachable clientQuintuple (some 101)
    (by decide +kernel)).1 (some 1) (by decide +kernel) aged aged_reachable none

/-- A packet of a new connection goes nowhere when there is no memory for the connection. -/
theorem connection_affinity_no_memory :
    ¬ ∀ hash maxSockNum maxConnNum s q malloc,
      (system hash maxSockNum maxConnNum).ReachableUnder RevivesNothing s → s.fresh malloc →
      s.gazelleConnGetByQuintuple hash (packetQuintuple q) = none →
      s.connHtable.curNum ≠ s.connHtable.maxNum →
      (∃ sock, s.Eligible q.dstIp q.dstPort sock ∧
        sock.tcpConNum.toNat < gazelleStackMaxTcpConNum) →
      (s.tcpHandle hash q malloc).2 ≠ none := by
  intro hclaim
  have hlistener : listening.sockHtable.toList.any fun sock =>
      listening.sockIsOn sock && sock.ip = 0x0a01a8c0 && sock.port = 80 && sock.tcpConNum = 0 := by
    decide +kernel
  obtain ⟨sock, hmem, hsock⟩ := List.any_eq_true.1 hlistener
  simp only [Bool.and_eq_true, decide_eq_true_eq] at hsock
  obtain ⟨⟨⟨hon, hip⟩, hport⟩, hnum⟩ := hsock
  refine hclaim oneBucketHash 4096 gazelleMaxConnNum listening clientQuintuple none
    listening_reachable rfl (by decide +kernel) (by decide +kernel)
    ⟨sock, ⟨hmem, hon, hip, hport⟩, ?_⟩ (by decide +kernel)
  rw [hnum]
  decide

end LtranTables

end Gazelle
