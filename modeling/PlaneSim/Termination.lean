import PlaneSim.Lib.Ranking
import PlaneSim.Deadlock

/-!
# Every schedule ends

A rank of the system that every step lowers, except for the exit flag going up again and a failed
receive of the map. It adds up what all threads and messages can still cause.

1. A message in a queue or an inbox weighs more than the steps that it leads to, with the messages
   sent on the way; so taking it lowers the rank (`queueWeight`, `airWeight`, `mapWeight`).
2. A turn that the main loop has not started weighs `turnWeight`, which is more than the start
   messages of its two phases and the rounds of the receive loops.
3. One step of a plane, of a listener and of the map (`rank_planeStep`, `rank_listenStep`,
   `rank_mapStep`).

The numbers are for airlines of at most `K` planes.
-/

namespace PlaneSim

open Lts Update

/-! ## Weights -/

section Weights

variable (K : ℕ)

/-- The weight of a message in the queue of a plane. -/
def queueWeight : Message → ℕ
  | .start _ => K + 22
  | .stock _ _ => K + 12
  | .destinations _ _ _ => K + 12
  | .finish => 1

/-- The weight of a message in the inbox of the map. -/
def mapWeight : PlaneMessage → ℕ
  | .airlineDone => 1
  | .airlineStatus _ => 1
  | .unloadStock _ => K + 16
  | .checkDestinations _ => K + 16

/-- The weight of a message in the inbox of an airline. -/
def airWeight : MapMessage → ℕ
  | .start _ => K * (K + 25) + 12
  | .stock _ => K + 14
  | .destinations _ => K + 14
  | .finish => 1

def ReportPc.rank : ReportPc → ℕ
  | .stage => K + 6
  | .count i _ => K - i + 5
  | .lockConn msg => mapWeight K msg + 3
  | .send msg => mapWeight K msg + 2
  | .unlockConn => 1

def Safe.rank : Safe → ℕ
  | .unload => K + 21
  | .unloadSend => K + 20
  | .check => K + 20
  | .ready _ => K + 11
  | .cont => 1

/-- A plane that waits for a message has rank 0, or 1 where it may leave without one. -/
def PlanePc.rank : PlanePc → ℕ
  | .top => 1
  | .safe action => action.rank K
  | .lockConn _ => K + 19
  | .send _ => K + 18
  | .unlockConn _ => 1
  | .reply _ => 0
  | .cont => 0
  | .lockLeft _ => K + 10
  | .dec _ => K + 9
  | .report _ pc => pc.rank K + 2
  | .unlockLeft _ => 2
  | .exited => 0

/-- A listener that receives may still be told to end, or fail. -/
def ListenPc.rank : ListenPc → ℕ
  | .recv => 3 * K + 4
  | .lockLeft _ => 3 * K + 4 + (K * (K + 25) + 11)
  | .scan _ i => 3 * K + 4 + (K - i + K * (K + 24) + 10)
  | .report pc => 3 * K + 4 + (pc.rank K + 1)
  | .bcast _ i => 3 * K + 4 + ((K - i) * (K + 23) + 2)
  | .unlockLeft => 3 * K + 4 + 1
  | .push _ msg => 3 * K + 4 + (queueWeight K msg + 1)
  | .finish i => (K - i) * 2 + K + 3
  | .join i => K - i + 1
  | .stopped => 0

def PlaneThread.rank (P : PlaneThread) : ℕ := P.pc.rank K + (P.queue.map (queueWeight K)).sum

def AirlineState.rank (A : AirlineState) : ℕ :=
  A.pc.rank K + (A.inbox.map (airWeight K)).sum + (A.planes.map (·.rank K)).sum

/-- What one step of an airline may put in the inbox of the map. -/
def sentWeight (sent : Option PlaneMessage) : ℕ := (sent.toList.map (mapWeight K)).sum

/-- The map with `n` airlines, not counting the turns to come. -/
def MapPc.rank (n : ℕ) : MapPc → ℕ
  | .head => 2 * n + 2
  | .send .one i => 2 * n + 6 + (n + (n - i)) * (K * (K + 25) + 13)
  | .recv .one _ => 2 * n + 5 + n * (K * (K + 25) + 13)
  | .reply .one _ _ msg => 2 * n + 5 + n * (K * (K + 25) + 13) + (airWeight K msg + 1)
  | .send .two i => 2 * n + 4 + (n - i) * (K * (K + 25) + 13)
  | .recv .two _ => 2 * n + 3
  | .reply .two _ _ msg => 2 * n + 3 + (airWeight K msg + 1)
  | .finish i => (n - i) * 2 + 1
  | .halted => 0
  | .crashed => 0

/-- A turn of `n` airlines. -/
def turnWeight (n : ℕ) : ℕ := 2 * n * (K * (K + 25) + 13) + 5

/-- The turns that `endSimulation` still allows. -/
def System.turnsLeft (s : System) : ℕ := if s.exitState then 0 else 70000 - s.turn

/-- All but the turns to come. -/
def System.load (s : System) : ℕ :=
  s.pc.rank K s.airlines.length + (s.inbox.map fun x => mapWeight K x.2).sum +
    (s.airlines.map (·.rank K)).sum

def System.rank (s : System) : ℕ := s.turnsLeft * turnWeight K s.airlines.length + s.load K

end Weights

/-! ## Planes -/

section Airline

variable {K a : ℕ} {room : Bool} {A A' : AirlineState} {p : ℕ} {P P' : PlaneThread}
  {sent : Option PlaneMessage}

/-- A step of an airline lowers its rank by more than what it sends. -/
def Lowers (K : ℕ) (A A' : AirlineState) (sent : Option PlaneMessage) : Prop :=
  A'.planes.length = A.planes.length ∧ A'.rank K + sentWeight K sent < A.rank K

/-- A plane takes a step. -/
theorem Lowers.plane (hP : A.planes[p]? = some P) (hplanes : A'.planes = A.planes.set p P')
    (hsame : A'.pc = A.pc ∧ A'.inbox = A.inbox)
    (hlt : P'.rank K + sentWeight K sent < P.rank K) : Lowers K A A' sent := by
  refine ⟨by rw [hplanes, List.length_set], ?_⟩
  have hsum := sum_map_set_add (·.rank K) hP P'
  unfold AirlineState.rank
  rw [hplanes, hsame.1, hsame.2]
  omega

/-- It leaves its queue as it is. -/
theorem Lowers.move (hP : A.planes[p]? = some P) (hplanes : A'.planes = A.planes.set p P')
    (hsame : A'.pc = A.pc ∧ A'.inbox = A.inbox) (hqueue : P'.queue = P.queue)
    (hlt : P'.pc.rank K + sentWeight K sent < P.pc.rank K) : Lowers K A A' sent := by
  refine .plane hP hplanes hsame ?_
  unfold PlaneThread.rank
  rw [hqueue]
  omega

/-- It takes the first message of its queue. -/
theorem Lowers.take {msg : Message} (hP : A.planes[p]? = some P)
    (hplanes : A'.planes = A.planes.set p P') (hsame : A'.pc = A.pc ∧ A'.inbox = A.inbox)
    (hqueue : P.queue = msg :: P'.queue) (hlt : P'.pc.rank K < P.pc.rank K + queueWeight K msg) :
    Lowers K A A' none := by
  refine .plane hP hplanes hsame ?_
  unfold PlaneThread.rank
  rw [hqueue, List.map_cons, List.sum_cons]
  show _ + 0 < _
  omega

theorem PlanePc.rank_exited_lt (msg : Message) (pc : PlanePc) :
    PlanePc.exited.rank K < pc.rank K + queueWeight K msg := by
  show 0 < _
  cases msg <;> simp only [queueWeight] <;> omega

theorem mapWeight_request {plane : Plane} {phase : Phase} {msg : PlaneMessage}
    (h : request a plane phase = some msg) : mapWeight K msg = K + 16 := by
  cases phase with
  | one | two =>
    obtain ⟨body, -, rfl⟩ := Option.map_eq_some_iff.mp h
    rfl

/-- `send_ready_message` goes on to a lower rank, or returns. -/
theorem rank_reportStep {thread : Thread} {pc : ReportPc} {r : ReportStep}
    (hK : A.planes.length ≤ K) (h : reportStep a room A thread pc = some r) :
    (r.next.elim 0 (·.rank K)) + sentWeight K r.sent < pc.rank K := by
  cases pc with
  | stage =>
    simp only [reportStep] at h
    split at h <;> cases h
    · show K - 0 + 5 + 0 < K + 6
      omega
    · show 1 + 3 + 0 < K + 6
      omega
  | count i flying =>
    simp only [reportStep] at h
    split at h <;> cases h
    · rename_i P hP
      have hi := (List.getElem?_eq_some_iff.mp hP).1
      show K - (i + 1) + 5 + 0 < K - i + 5
      omega
    · show 1 + 3 + 0 < K - i + 5
      omega
  | lockConn msg =>
    simp only [reportStep] at h
    split at h <;> cases h
    show mapWeight K msg + 2 + 0 < mapWeight K msg + 3
    omega
  | send msg =>
    simp only [reportStep] at h
    split at h <;> cases h
    show 1 + (mapWeight K msg + 0) < mapWeight K msg + 2
    omega
  | unlockConn =>
    cases h
    exact Nat.one_pos

theorem rank_enter (action : Safe) : action.enter.rank K < action.rank K := by
  cases action <;> simp [Safe.enter, PlanePc.rank, Safe.rank]

theorem rank_afterReady (done : Bool) (phase : Phase) :
    (afterReady done phase).rank K ≤ 1 := by
  cases phase <;> cases done <;> simp [afterReady, PlanePc.rank, Safe.rank]

/-- A reply that is stored is one. -/
theorem queueWeight_takeReply {plane plane' : Plane} {phase : Phase} {msg : Message} {done : Bool}
    (h : takeReply plane phase msg = some (plane', some done)) : queueWeight K msg = K + 12 := by
  cases msg with
  | stock _ _ => rfl
  | destinations _ _ _ => rfl
  | start _ => cases phase <;> cases h
  | finish => cases phase <;> cases h

theorem rank_planeStep {r : AirlineStep} (hK : A.planes.length ≤ K)
    (hstep : planeStep a room A p = some r) : Lowers K A r.2.1 r.2.2 := by
  unfold planeStep at hstep
  obtain ⟨P, hP, hstep⟩ := Option.bind_eq_some_iff.mp hstep
  cases hpc : P.pc with
  | top =>
    simp only [hpc] at hstep
    split at hstep
    · cases hstep
      exact .move hP rfl ⟨rfl, rfl⟩ rfl (by rw [hpc]; exact Nat.one_pos)
    · split at hstep <;> cases hstep
      · rename_i queue hqueue
        refine .take hP rfl ⟨rfl, rfl⟩ hqueue ?_
        dsimp only
        split <;> simp only [PlanePc.rank, Safe.rank, queueWeight] <;> omega
      · rename_i queue hqueue
        exact .take hP rfl ⟨rfl, rfl⟩ hqueue (PlanePc.rank_exited_lt _ _)
      · rename_i queue _ _ hqueue
        exact .take hP rfl ⟨rfl, rfl⟩ hqueue (PlanePc.rank_exited_lt _ _)
  | safe action =>
    simp only [hpc] at hstep
    split at hstep <;> cases hstep
    · refine .move hP rfl ⟨rfl, rfl⟩ rfl ?_
      rw [hpc]
      exact Nat.zero_lt_of_lt (rank_enter (K := K) action)
    · refine .move hP rfl ⟨rfl, rfl⟩ rfl ?_
      rw [hpc]
      exact rank_enter action
  | lockConn phase =>
    simp only [hpc] at hstep
    split at hstep <;> cases hstep
    exact .move hP rfl ⟨rfl, rfl⟩ rfl (by rw [hpc]; exact Nat.lt_succ_self (K + 18))
  | send phase =>
    simp only [hpc] at hstep
    split at hstep
    · cases hstep
      exact .move hP rfl ⟨rfl, rfl⟩ rfl (by rw [hpc]; exact Nat.zero_lt_succ (K + 17))
    · rename_i msg hrequest
      split at hstep <;> cases hstep
      refine .move hP rfl ⟨rfl, rfl⟩ rfl ?_
      rw [hpc]
      show 1 + (mapWeight K msg + 0) < K + 18
      rw [mapWeight_request hrequest]
      omega
  | unlockConn phase =>
    simp only [hpc] at hstep
    cases hstep
    exact .move hP rfl ⟨rfl, rfl⟩ rfl (by rw [hpc]; exact Nat.one_pos)
  | reply phase =>
    simp only [hpc] at hstep
    split at hstep
    · cases hstep
    · rename_i msg queue hqueue
      split at hstep <;> cases hstep
      · rename_i plane done htake
        refine .take hP rfl ⟨rfl, rfl⟩ hqueue ?_
        rw [hpc, queueWeight_takeReply htake]
        show K + 11 < 0 + (K + 12)
        omega
      · exact .take hP rfl ⟨rfl, rfl⟩ hqueue (PlanePc.rank_exited_lt _ _)
      · exact .take hP rfl ⟨rfl, rfl⟩ hqueue (PlanePc.rank_exited_lt _ _)
  | cont =>
    simp only [hpc] at hstep
    split at hstep
    · cases hstep
    · rename_i queue hqueue
      split at hstep <;> cases hstep <;> refine .take hP rfl ⟨rfl, rfl⟩ hqueue ?_ <;>
        simp only [PlanePc.rank, Safe.rank, queueWeight] <;> omega
    · rename_i msg queue _ hqueue
      cases hstep
      exact .take hP rfl ⟨rfl, rfl⟩ hqueue (PlanePc.rank_exited_lt _ _)
  | lockLeft phase =>
    simp only [hpc] at hstep
    split at hstep <;> cases hstep
    exact .move hP rfl ⟨rfl, rfl⟩ rfl (by rw [hpc]; exact Nat.lt_succ_self (K + 9))
  | dec phase =>
    simp only [hpc] at hstep
    cases hstep
    refine .move hP rfl ⟨rfl, rfl⟩ rfl ?_
    rw [hpc]
    dsimp only
    split
    · exact Nat.lt_succ_self (K + 8)
    · show 2 + 0 < K + 9
      omega
  | report phase pc =>
    simp only [hpc] at hstep
    obtain ⟨r, hreport, rfl⟩ := Option.map_eq_some_iff.mp hstep
    have hlt := rank_reportStep hK hreport
    refine .move hP rfl ⟨rfl, rfl⟩ rfl ?_
    rw [hpc]
    dsimp only
    cases hnext : r.next with
    | none =>
      rw [hnext] at hlt
      show 2 + sentWeight K r.sent < pc.rank K + 2
      have : sentWeight K r.sent < pc.rank K := by simpa using hlt
      omega
    | some pc' =>
      rw [hnext] at hlt
      show pc'.rank K + 2 + sentWeight K r.sent < pc.rank K + 2
      have : pc'.rank K + sentWeight K r.sent < pc.rank K := hlt
      omega
  | unlockLeft phase =>
    simp only [hpc] at hstep
    cases hstep
    refine .move hP rfl ⟨rfl, rfl⟩ rfl ?_
    rw [hpc]
    exact Nat.lt_succ_of_le (rank_afterReady P.done phase)
  | exited =>
    simp only [hpc] at hstep
    cases hstep

/-! ## The listener -/

/-- The listener goes on by itself. -/
theorem Lowers.pass (hsame : A'.planes = A.planes ∧ A'.inbox = A.inbox)
    (hlt : A'.pc.rank K + sentWeight K sent < A.pc.rank K) : Lowers K A A' sent := by
  refine ⟨by rw [hsame.1], ?_⟩
  unfold AirlineState.rank
  rw [hsame.1, hsame.2]
  omega

/-- It takes a message. -/
theorem Lowers.receive {msg : MapMessage} (hinbox : A.inbox = msg :: A'.inbox)
    (hsame : A'.planes = A.planes) (hlt : A'.pc.rank K < A.pc.rank K + airWeight K msg) :
    Lowers K A A' none := by
  refine ⟨by rw [hsame], ?_⟩
  unfold AirlineState.rank
  rw [hsame, hinbox, List.map_cons, List.sum_cons]
  show _ + 0 < _
  omega

/-- It pushes a message to a plane. -/
theorem Lowers.push {msg : Message} (hP : A.planes[p]? = some P)
    (hpush : pushMessage P msg = some P') (hplanes : A'.planes = A.planes.set p P')
    (hinbox : A'.inbox = A.inbox) (hlt : A'.pc.rank K + queueWeight K msg < A.pc.rank K) :
    Lowers K A A' none := by
  refine ⟨by rw [hplanes, List.length_set], ?_⟩
  have hrank : P'.rank K = P.rank K + queueWeight K msg := by
    unfold pushMessage at hpush
    split at hpush <;> cases hpush
    simp [PlaneThread.rank, Nat.add_assoc]
  have hsum := sum_map_set_add (·.rank K) hP P'
  rw [hrank] at hsum
  unfold AirlineState.rank
  rw [hplanes, hinbox]
  show _ + 0 < _
  omega

/-- One plane fewer to come, of weight `c`. -/
theorem rest_mul_lt {i c : ℕ} (hi : i < K) : (K - (i + 1)) * c + c ≤ (K - i) * c := by
  rw [← Nat.succ_mul]
  exact Nat.mul_le_mul_right c (by omega)

theorem rank_listenStep {r : AirlineStep} (hK : A.planes.length ≤ K)
    (hstep : listenStep a room A = some r) : Lowers K A r.2.1 r.2.2 := by
  unfold listenStep at hstep
  have hindex : ∀ {i : ℕ} {P : PlaneThread}, A.planes[i]? = some P → i < K := fun hP =>
    (List.getElem?_eq_some_iff.mp hP).1.trans_le hK
  cases hpc : A.pc with
  | recv =>
    simp only [hpc] at hstep
    split at hstep
    · cases hstep
    · rename_i msg inbox hinbox
      cases msg <;> cases hstep <;> refine .receive hinbox rfl ?_ <;> rw [hpc] <;>
        simp only [ListenPc.rank, airWeight, queueWeight, redirectStockMessage,
          redirectDestinationsMessage] <;> omega
  | lockLeft phase =>
    simp only [hpc] at hstep
    split at hstep <;> cases hstep
    refine .pass ⟨rfl, rfl⟩ ?_
    rw [hpc]
    show 3 * K + 4 + (K - 0 + K * (K + 24) + 10) + 0 < 3 * K + 4 + (K * (K + 25) + 11)
    rw [show K * (K + 25) = K * (K + 24) + K from Nat.mul_succ K (K + 24)]
    omega
  | scan phase i =>
    simp only [hpc] at hstep
    split at hstep <;> cases hstep
    · rename_i P hP
      have hi := hindex hP
      refine .pass ⟨rfl, rfl⟩ ?_
      rw [hpc]
      show 3 * K + 4 + (K - (i + 1) + K * (K + 24) + 10) + 0 <
        3 * K + 4 + (K - i + K * (K + 24) + 10)
      omega
    · refine .pass ⟨rfl, rfl⟩ ?_
      rw [hpc]
      have hmul : K * (K + 24) = K * (K + 23) + K := Nat.mul_succ K (K + 23)
      dsimp only
      split
      · show 3 * K + 4 + (K + 6 + 1) + 0 < 3 * K + 4 + (K - i + K * (K + 24) + 10)
        omega
      · show 3 * K + 4 + ((K - 0) * (K + 23) + 2) + 0 < 3 * K + 4 + (K - i + K * (K + 24) + 10)
        rw [Nat.sub_zero]
        omega
  | report pc =>
    simp only [hpc] at hstep
    obtain ⟨r, hreport, rfl⟩ := Option.map_eq_some_iff.mp hstep
    have hlt := rank_reportStep hK hreport
    refine .pass ⟨rfl, rfl⟩ ?_
    rw [hpc]
    dsimp only
    cases hnext : r.next with
    | none =>
      rw [hnext] at hlt
      show 3 * K + 4 + 1 + sentWeight K r.sent < 3 * K + 4 + (pc.rank K + 1)
      have : sentWeight K r.sent < pc.rank K := by simpa using hlt
      omega
    | some pc' =>
      rw [hnext] at hlt
      show 3 * K + 4 + (pc'.rank K + 1) + sentWeight K r.sent < 3 * K + 4 + (pc.rank K + 1)
      have : pc'.rank K + sentWeight K r.sent < pc.rank K := hlt
      omega
  | bcast phase i =>
    simp only [hpc] at hstep
    split at hstep
    · rename_i P hP
      have hi := rest_mul_lt (c := K + 23) (hindex hP)
      split at hstep
      · cases hstep
        refine .pass ⟨rfl, rfl⟩ ?_
        rw [hpc]
        show 3 * K + 4 + ((K - (i + 1)) * (K + 23) + 2) + 0 < 3 * K + 4 + ((K - i) * (K + 23) + 2)
        omega
      · obtain ⟨P', hpush, rfl⟩ := Option.map_eq_some_iff.mp hstep
        refine .push hP hpush rfl rfl ?_
        rw [hpc]
        show 3 * K + 4 + ((K - (i + 1)) * (K + 23) + 2) + (K + 22) <
          3 * K + 4 + ((K - i) * (K + 23) + 2)
        omega
    · cases hstep
      refine .pass ⟨rfl, rfl⟩ ?_
      rw [hpc]
      show 3 * K + 4 + 1 + 0 < 3 * K + 4 + ((K - i) * (K + 23) + 2)
      omega
  | unlockLeft =>
    simp only [hpc] at hstep
    cases hstep
    exact .pass ⟨rfl, rfl⟩ (by rw [hpc]; exact Nat.lt_succ_self (3 * K + 4))
  | push id msg =>
    simp only [hpc] at hstep
    split at hstep
    · rename_i P hP
      obtain ⟨P', hpush, rfl⟩ := Option.map_eq_some_iff.mp hstep
      obtain ⟨p, rfl, hP⟩ := getFromVector_eq_some hP
      refine .push hP hpush rfl rfl ?_
      rw [hpc]
      exact Nat.lt_succ_self (3 * K + 4 + queueWeight K msg)
    · cases hstep
      exact .pass ⟨rfl, rfl⟩ (by rw [hpc]; exact Nat.zero_lt_succ _)
  | finish i =>
    simp only [hpc] at hstep
    split at hstep
    · rename_i P hP
      have hi := hindex hP
      split at hstep
      · cases hstep
        refine .pass ⟨rfl, rfl⟩ ?_
        rw [hpc]
        show (K - (i + 1)) * 2 + K + 3 + 0 < (K - i) * 2 + K + 3
        omega
      · obtain ⟨P', hpush, rfl⟩ := Option.map_eq_some_iff.mp hstep
        refine .push hP hpush rfl rfl ?_
        rw [hpc]
        show (K - (i + 1)) * 2 + K + 3 + 1 < (K - i) * 2 + K + 3
        omega
    · cases hstep
      refine .pass ⟨rfl, rfl⟩ ?_
      rw [hpc]
      show K - 0 + 1 + 0 < (K - i) * 2 + K + 3
      omega
  | join i =>
    simp only [hpc] at hstep
    split at hstep
    · rename_i P hP
      have hi := hindex hP
      split at hstep <;> cases hstep
      refine .pass ⟨rfl, rfl⟩ ?_
      rw [hpc]
      show K - (i + 1) + 1 + 0 < K - i + 1
      omega
    · cases hstep
      exact .pass ⟨rfl, rfl⟩ (by rw [hpc]; exact Nat.zero_lt_succ _)
  | stopped =>
    simp only [hpc] at hstep
    cases hstep

theorem rank_listenFail (hfail : listenFail A = some A') : Lowers K A A' none := by
  unfold listenFail at hfail
  split at hfail <;> cases hfail
  rename_i hpc
  refine .pass ⟨rfl, rfl⟩ ?_
  rw [hpc]
  show (K - 0) * 2 + K + 3 + 0 < 3 * K + 4
  omega

end Airline

/-! ## The map -/

section System

variable {K : ℕ} {cfg : Config} {s s' : System} {es : List Event} {a i : ℕ} {phase : Phase}

/-- The number of planes of each airline. -/
def System.sizes (s : System) : List ℕ := s.airlines.map (·.planes.length)

/-- No airline has more than `K` planes. -/
def System.Within (K : ℕ) (s : System) : Prop := ∀ A ∈ s.airlines, A.planes.length ≤ K

theorem System.Within.congr (h : s.Within K) (hsizes : s'.sizes = s.sizes) : s'.Within K := by
  intro A hA
  have hmem : A.planes.length ∈ s'.sizes := List.mem_map_of_mem hA
  rw [hsizes] at hmem
  obtain ⟨B, hB, hlen⟩ := List.mem_map.mp hmem
  rw [← hlen]
  exact h B hB

theorem length_of_sizes (hsizes : s'.sizes = s.sizes) : s'.airlines.length = s.airlines.length := by
  simpa [System.sizes] using congrArg List.length hsizes

/-- A step that lowers the rank: it starts a turn, or it does work that was there. -/
inductive Declines (K : ℕ) (s s' : System) : Prop where
  | turn (start : s.pc = .head) (sizes : s'.sizes = s.sizes) (turns : s'.turnsLeft + 1 = s.turnsLeft)
      (load : s'.load K < s.load K + turnWeight K s.airlines.length)
  | work (sizes : s'.sizes = s.sizes) (turns : s'.turnsLeft = s.turnsLeft)
      (load : s'.load K < s.load K)

theorem Declines.sizes (h : Declines K s s') : s'.sizes = s.sizes := by
  cases h <;> assumption

theorem Declines.rank_lt (h : Declines K s s') : s'.rank K < s.rank K := by
  unfold System.rank
  rw [length_of_sizes h.sizes]
  cases h with
  | turn _ _ turns load =>
    rw [← turns, Nat.succ_mul]
    omega
  | work _ turns load =>
    rw [turns]
    omega

/-- A message delivered adds its weight to the airlines. -/
theorem deliver_rank {msg : MapMessage} (h : s.deliver cfg i msg = some s') :
    ∃ airlines, s' = { s with airlines := airlines } ∧ s'.sizes = s.sizes ∧
      (airlines.map (·.rank K)).sum = (s.airlines.map (·.rank K)).sum + airWeight K msg := by
  obtain ⟨A, hA, h⟩ := Option.bind_eq_some_iff.mp h
  split at h <;> cases h
  have hsum := sum_map_set_add (·.rank K) hA { A with inbox := A.inbox ++ [msg] }
  have hrank : ({ A with inbox := A.inbox ++ [msg] } : AirlineState).rank K =
      A.rank K + airWeight K msg := by
    simp [AirlineState.rank]
    omega
  rw [hrank] at hsum
  refine ⟨_, rfl, map_set_of_eq (fun A : AirlineState => A.planes.length) hA rfl, ?_⟩
  omega

theorem airWeight_serveUnload {map map' : Map} {msg : StockStateMessage} {airline : Int}
    {reply : MapMessage} (h : serveUnload map msg = some (map', airline, reply)) :
    airWeight K reply = K + 14 := by
  obtain ⟨x, -, h⟩ := Option.bind_eq_some_iff.mp h
  obtain ⟨y, -, h⟩ := Option.bind_eq_some_iff.mp h
  obtain ⟨z, hz, h⟩ := Option.bind_eq_some_iff.mp h
  cases h
  obtain ⟨body, -, rfl⟩ := Option.map_eq_some_iff.mp hz
  rfl

theorem airWeight_serveDestinations {qsort : Qsort} {map map' : Map} {msg : CheckDestinationsMessage}
    {airline : Int} {reply : MapMessage}
    (h : serveDestinations qsort map msg = some (map', airline, reply)) :
    airWeight K reply = K + 14 := by
  obtain ⟨x, -, h⟩ := Option.bind_eq_some_iff.mp h
  obtain ⟨y, -, h⟩ := Option.bind_eq_some_iff.mp h
  cases h
  rfl

theorem mapWeight_pos (msg : PlaneMessage) : 0 < mapWeight K msg := by
  cases msg <;> simp [mapWeight]

/-- What a receive loop does with a message weighs less than the message. -/
theorem rank_act {msg : PlaneMessage} (hpc : s.pc = .recv phase i)
    (hact : (act cfg s phase i msg).2 = s') :
    s'.inbox = s.inbox ∧ s'.airlines = s.airlines ∧ s'.turnsLeft = s.turnsLeft ∧
      s'.pc.rank K s.airlines.length < s.pc.rank K s.airlines.length + mapWeight K msg := by
  have hpos := mapWeight_pos (K := K) msg
  obtain ⟨es, h⟩ : ∃ es, act cfg s phase i msg = (es, s') := ⟨_, Prod.ext rfl hact⟩
  rw [hpc]
  unfold act at h
  split at h
  · cases h
    exact ⟨rfl, rfl, rfl, Nat.lt_add_of_pos_right hpos⟩
  · split at h <;> cases h
    · rename_i hserve
      refine ⟨rfl, rfl, rfl, ?_⟩
      simp only [MapPc.rank, mapWeight, airWeight_serveUnload hserve]
      omega
    · exact ⟨rfl, rfl, rfl, Nat.add_pos_right _ hpos⟩
  · cases h
    exact ⟨rfl, rfl, rfl, Nat.lt_add_of_pos_right hpos⟩
  · split at h <;> cases h
    · rename_i hserve
      refine ⟨rfl, rfl, rfl, ?_⟩
      simp only [MapPc.rank, mapWeight, airWeight_serveDestinations hserve]
      omega
    · exact ⟨rfl, rfl, rfl, Nat.add_pos_right _ hpos⟩
  · cases h
    rw [hpc]
    exact ⟨rfl, rfl, rfl, Nat.lt_add_of_pos_right hpos⟩

/-- The map goes on by itself. -/
theorem Declines.pass {pc : MapPc} (h : pc.rank K s.airlines.length < s.pc.rank K s.airlines.length) :
    Declines K s { s with pc := pc } := by
  refine .work rfl rfl ?_
  unfold System.load
  dsimp only
  omega

/-- It writes to an airline. -/
theorem Declines.deliver {msg : MapMessage} {pc : MapPc} (h : s.deliver cfg a msg = some s')
    (hlt : pc.rank K s.airlines.length + airWeight K msg < s.pc.rank K s.airlines.length) :
    Declines K s { s' with pc := pc } := by
  obtain ⟨airlines, rfl, hsizes, hsum⟩ := deliver_rank (K := K) h
  have hlen : airlines.length = s.airlines.length := length_of_sizes hsizes
  refine .work hsizes rfl ?_
  unfold System.load
  dsimp only
  rw [hlen, hsum]
  omega

/-- One airline fewer to come. -/
theorem rank_send_lt {n : ℕ} (hi : i < n) :
    (MapPc.send phase (i + 1)).rank K n + airWeight K (.start phase) <
      (MapPc.send phase i).rank K n := by
  have h := rest_mul_lt (c := K * (K + 25) + 13) hi
  cases phase with
  | one =>
    simp only [MapPc.rank, airWeight, Nat.add_mul]
    omega
  | two =>
    simp only [MapPc.rank, airWeight]
    omega

theorem rank_mapStep (h : mapStep cfg s = some (es, s')) : Declines K s s' := by
  unfold mapStep at h
  cases hpc : s.pc with
  | head =>
    simp only [hpc] at h
    split at h <;> cases h
    · rename_i hgo
      obtain ⟨hexit, hcontinue⟩ := Bool.and_eq_true_iff.mp hgo
      have hturn : s.turn < 70000 := by
        simpa using (Bool.and_eq_true_iff.mp hcontinue).1
      refine .turn hpc rfl ?_ ?_
      · simp only [System.turnsLeft, show s.exitState = false by simpa using hexit]
        simp
        omega
      · simp only [System.load, hpc, MapPc.rank, turnWeight, Nat.sub_zero]
        rw [Nat.two_mul]
        omega
    · refine .pass ?_
      rw [hpc]
      simp only [MapPc.rank]
      omega
  | send phase i =>
    simp only [hpc] at h
    split at h
    · rename_i hi
      obtain ⟨s1, hs1, h⟩ := Option.map_eq_some_iff.mp h
      cases h
      exact .deliver hs1 (by rw [hpc]; exact rank_send_lt hi)
    · cases h
      refine .pass ?_
      rw [hpc]
      cases phase <;> simp only [MapPc.rank, Nat.add_mul] <;> omega
  | recv phase i =>
    simp only [hpc] at h
    split at h
    · cases h
      refine .pass ?_
      rw [hpc]
      cases phase <;> simp only [MapPc.rank, Phase.after, Nat.sub_zero] <;> omega
    · split at h
      · cases h
      · rename_i b msg inbox hinbox
        have hact : (act cfg { s with inbox := inbox, msg := some msg } phase i msg).2 = s' := by
          rw [hpc]
          exact (Prod.mk.inj (Option.some.inj h)).2
        obtain ⟨hin, hair, hturns, hlt⟩ :=
          rank_act (K := K) (s := { s with inbox := inbox, msg := some msg }) hpc hact
        refine .work (by rw [System.sizes, hair, System.sizes]) hturns ?_
        unfold System.load
        rw [hin, hair, hinbox, List.map_cons, List.sum_cons]
        dsimp only at hlt ⊢
        omega
  | reply phase i airline msg =>
    simp only [hpc] at h
    split at h
    · obtain ⟨s1, hs1, h⟩ := Option.map_eq_some_iff.mp h
      cases h
      refine .deliver hs1 ?_
      rw [hpc]
      cases phase <;> simp only [MapPc.rank] <;> omega
    · cases h
      refine .pass ?_
      rw [hpc]
      cases phase <;> simp only [MapPc.rank] <;> omega
  | finish i =>
    simp only [hpc] at h
    split at h
    · rename_i hi
      obtain ⟨s1, hs1, h⟩ := Option.map_eq_some_iff.mp h
      cases h
      refine .deliver hs1 ?_
      rw [hpc]
      simp only [MapPc.rank, airWeight]
      omega
    · cases h
      refine .pass ?_
      rw [hpc]
      exact Nat.zero_lt_succ _
  | halted =>
    simp only [hpc] at h
    cases h
  | crashed =>
    simp only [hpc] at h
    cases h

/-- An airline takes a step. -/
theorem Declines.airline {A : AirlineState} {r : AirlineStep} (hA : s.airlines[a]? = some A)
    (h : Lowers K A r.2.1 r.2.2) : Declines K s (s.update a r).2 := by
  obtain ⟨events, A', sent⟩ := r
  obtain ⟨hlen, hlt⟩ := h
  refine .work (map_set_of_eq (fun A : AirlineState => A.planes.length) hA hlen) rfl ?_
  have hsum := sum_map_set_add (·.rank K) hA A'
  have hsent : ((sent.toList.map fun msg => (a, msg)).map fun x => mapWeight K x.2).sum =
      sentWeight K sent := by
    cases sent <;> rfl
  simp only [System.load, System.update, List.length_set, List.map_append, List.sum_append, hsent]
  dsimp only at hlt
  omega

/-- **A step lowers the rank**, but for the exit flag and the failed receives of the map. -/
theorem declines_step {action : Action} (hw : s.Within K) (h : step cfg s action = some (es, s'))
    (hexit : action ≠ .exit) (hfail : action ≠ .mapFail) : Declines K s s' := by
  cases action with
  | map => exact rank_mapStep h
  | listener a =>
    obtain ⟨A, hA, h⟩ := Option.bind_eq_some_iff.mp h
    obtain ⟨r, hr, hs⟩ := Option.map_eq_some_iff.mp h
    rw [show s' = (s.update a r).2 by rw [hs]]
    exact .airline hA (rank_listenStep (hw A (List.mem_of_getElem? hA)) hr)
  | plane a p =>
    obtain ⟨A, hA, h⟩ := Option.bind_eq_some_iff.mp h
    obtain ⟨r, hr, hs⟩ := Option.map_eq_some_iff.mp h
    rw [show s' = (s.update a r).2 by rw [hs]]
    exact .airline hA (rank_planeStep (hw A (List.mem_of_getElem? hA)) hr)
  | exit => exact absurd rfl hexit
  | mapFail => exact absurd rfl hfail
  | listenerFail a =>
    obtain ⟨A, hA, h⟩ := Option.bind_eq_some_iff.mp h
    obtain ⟨A', hA', h⟩ := Option.map_eq_some_iff.mp h
    cases h
    have := Declines.airline (K := K) (r := ([], A', none)) hA (rank_listenFail hA')
    simpa [System.update] using this

/-- A failed receive of the map raises it by less than the heaviest message it may act on again. -/
theorem rank_mapFailStep (h : mapFailStep cfg s = some (es, s')) :
    s'.airlines = s.airlines ∧ s'.rank K < s.rank K + (K + 16) := by
  unfold mapFailStep at h
  cases hpc : s.pc with
  | recv phase i =>
    simp only [hpc] at h
    split at h
    · cases h
    · split at h
      · cases h
        refine ⟨rfl, ?_⟩
        simp only [System.rank, System.load, System.turnsLeft, MapPc.rank]
        omega
      · rename_i msg hmsg
        have hact : (act cfg s phase i msg).2 = s' := (Prod.mk.inj (Option.some.inj h)).2
        obtain ⟨hin, hair, hturns, hlt⟩ := rank_act (K := K) hpc hact
        have hweight : mapWeight K msg ≤ K + 16 := by
          cases msg <;> simp [mapWeight]
        refine ⟨hair, ?_⟩
        unfold System.rank System.load
        rw [hin, hair, hturns]
        omega
  | head | send _ _ | reply _ _ _ _ | finish _ | halted | crashed =>
    simp only [hpc] at h
    cases h

/-- Raising the exit flag gives up the turns to come. -/
theorem rank_exit (h : step cfg s .exit = some (es, s')) :
    s'.airlines = s.airlines ∧ s'.rank K ≤ s.rank K := by
  cases h
  refine ⟨rfl, ?_⟩
  simp [System.rank, System.turnsLeft, System.load]

/-! ## Schedules -/

/-- The steps of a schedule. -/
def Action.counts (action : Action) : Bool := action ≠ .exit

theorem sizes_step {action : Action} (hw : s.Within K) (h : step cfg s action = some (es, s')) :
    s'.sizes = s.sizes := by
  by_cases hexit : action = .exit
  · subst hexit
    rw [System.sizes, (rank_exit (K := K) h).1, System.sizes]
  · by_cases hfail : action = .mapFail
    · subst hfail
      rw [System.sizes, (rank_mapFailStep (K := K) h).1, System.sizes]
    · exact (declines_step hw h hexit hfail).sizes

theorem System.Within.step {action : Action} (hw : s.Within K)
    (h : step cfg s action = some (es, s')) : s'.Within K := hw.congr (sizes_step hw h)

theorem rank_step {action : Action} (hw : s.Within K) (h : step cfg s action = some (es, s')) :
    s'.rank K + (if action.counts then 1 else 0) ≤
      s.rank K + (if action = .mapFail then K + 16 else 0) := by
  by_cases hexit : action = .exit
  · subst hexit
    rw [if_neg (by decide), Nat.add_zero, if_neg (by simp), Nat.add_zero]
    exact (rank_exit h).2
  · have hcounts : action.counts = true := by simpa [Action.counts] using hexit
    rw [if_pos hcounts]
    by_cases hfail : action = .mapFail
    · subst hfail
      rw [if_pos rfl]
      exact (rank_mapFailStep h).2
    · rw [if_neg hfail]
      exact (declines_step hw h hexit hfail).rank_lt

end System

/-- The most planes of an airline. -/
def maxPlanes (airlines : List Airline) : ℕ :=
  (airlines.map (·.planes.length)).foldr max 0

theorem length_le_maxPlanes {airlines : List Airline} {airline : Airline}
    (h : airline ∈ airlines) : airline.planes.length ≤ maxPlanes airlines := by
  unfold maxPlanes
  induction airlines with
  | nil => cases h
  | cons other rest ih =>
    rw [List.map_cons, List.foldr_cons]
    rcases List.mem_cons.mp h with rfl | h
    · exact Nat.le_max_left _ _
    · exact (ih h).trans (Nat.le_max_right _ _)

/-- What `n` airlines of at most `K` planes can do between two turns, without a new one. -/
def idleWork (K n : ℕ) : ℕ := n * (6 * K + 8) + 2

/-- The steps of all turns. -/
def scheduleLength (airlines : List Airline) : ℕ :=
  70000 * turnWeight (maxPlanes airlines) airlines.length +
    idleWork (maxPlanes airlines) airlines.length

section Runs

variable {cfg : Config} {map : Map} {airlines : List Airline} {s s' : System}
  {as as' : List Action} {tr tr' : List Event} {K : ℕ}

theorem within_init : (System.init map airlines).Within (maxPlanes airlines) := by
  intro A hA
  obtain ⟨airline, hairline, rfl⟩ := List.mem_map.mp hA
  simpa [bootstrapPlanes] using length_le_maxPlanes hairline

theorem rank_bootstrapPlanes {airline : Airline} (h : airline.planes.length ≤ K) :
    (bootstrapPlanes airline).rank K ≤ 6 * K + 6 := by
  have hplanes : ((bootstrapPlanes airline).planes.map (·.rank K)).sum = airline.planes.length := by
    simp [bootstrapPlanes, PlaneThread.rank, PlanePc.rank, Function.comp_def]
  unfold AirlineState.rank
  rw [hplanes]
  show 3 * K + 4 + 0 + airline.planes.length ≤ _
  omega

/-- Airlines of a rank of at most `c` each. -/
theorem sum_rank_le (As : List AirlineState) {c : ℕ} (h : ∀ A ∈ As, A.rank K ≤ c) :
    (As.map (·.rank K)).sum ≤ As.length * c := by
  have := List.sum_le_card_nsmul (As.map (·.rank K)) c (by simpa using h)
  simpa using this

theorem load_init (map : Map) (airlines : List Airline) :
    (System.init map airlines).load (maxPlanes airlines) ≤
      idleWork (maxPlanes airlines) airlines.length := by
  have hsum := sum_rank_le (K := maxPlanes airlines) (airlines.map bootstrapPlanes)
    (c := 6 * maxPlanes airlines + 6) fun A hA => by
      obtain ⟨airline, hairline, rfl⟩ := List.mem_map.mp hA
      exact rank_bootstrapPlanes (length_le_maxPlanes hairline)
  rw [List.length_map] at hsum
  simp only [System.load, System.init, MapPc.rank, idleWork, List.length_map, List.map_nil,
    List.sum_nil]
  rw [Nat.mul_add _ _ 8]
  rw [Nat.mul_add _ _ 6] at hsum
  omega

theorem rank_init (map : Map) (airlines : List Airline) :
    (System.init map airlines).rank (maxPlanes airlines) ≤ scheduleLength airlines := by
  have hload := load_init map airlines
  simp only [System.rank, System.turnsLeft, scheduleLength]
  simpa [System.init] using hload

/-- **Every schedule ends.** Whatever order the threads are scheduled in, and with any failing
receives of the listeners, they take at most `scheduleLength` steps together, plus a bound for each
failing receive of the map. -/
theorem steps_le (h : exec (step cfg) (System.init map airlines) as = some (tr, s)) :
    as.countP Action.counts ≤ scheduleLength airlines +
      (maxPlanes airlines + 16) * as.count .mapFail := by
  have hkeep : ∀ s action es s', s.Within (maxPlanes airlines) →
      step cfg s action = some (es, s') → s'.Within (maxPlanes airlines) :=
    fun _ _ _ _ hw hs => hw.step hs
  have hrank := exec_rank hkeep (fun _ _ _ _ hw hs => rank_step hw hs) within_init h
  have hearn : ∀ as : List Action,
      (as.map fun action => if action = .mapFail then maxPlanes airlines + 16 else 0).sum =
        (maxPlanes airlines + 16) * as.count .mapFail := by
    intro as
    induction as with
    | nil => rfl
    | cons action as ih =>
      rw [List.map_cons, List.sum_cons, ih, List.count_cons]
      by_cases hfail : action = .mapFail
      · simp [hfail, Nat.mul_add, Nat.add_comm]
      · simp [hfail]
  rw [sum_map_ite_eq_countP, hearn] at hrank
  have hinit := rank_init map airlines
  omega

/-- A failed receive right after the first unload. -/
def failedUnload : List Action := toUnload ++ [.map, .map, .mapFail]

theorem steps_le_trio :
    ∃ tr s, exec (step someConfig) (System.init trioMap trioAirlines) failedUnload = some (tr, s) ∧
      failedUnload.countP Action.counts ≤ scheduleLength trioAirlines +
        (maxPlanes trioAirlines + 16) * failedUnload.count .mapFail := by
  obtain ⟨tr, s, hexec⟩ : ∃ tr s,
      exec (step someConfig) (System.init trioMap trioAirlines) failedUnload = some (tr, s) :=
    ⟨_, _, rfl⟩
  exact ⟨tr, s, hexec, steps_le hexec⟩

/-! ## Shutting down -/

theorem PlanePc.rank_rest {pc : PlanePc} {w : Phase} (h : pc.station = .rest w) :
    pc.rank K ≤ 3 := by
  cases pc with
  | top | unlockConn _ | reply _ | cont | unlockLeft _ | exited => simp [PlanePc.rank]
  | safe action => cases action <;> simp [PlanePc.rank, Safe.rank, PlanePc.station] at h ⊢
  | lockConn _ | send _ | lockLeft _ | dec _ => cases h
  | report _ pc => cases pc <;> simp [PlanePc.rank, ReportPc.rank, PlanePc.station] at h ⊢

/-- A plane that is out of the phase has next to nothing ahead of it. -/
theorem PlaneOk.rank_le {a : ℕ} {ph : Phase} {fresh : Bool} {P : PlaneThread} {t : TurnPlane}
    {rq : List PlaneMessage} {rp : List Message} (h : PlaneOk a ph false P t rq rp)
    (hcalm : Calm fresh P t) : P.rank K ≤ 3 := by
  obtain ⟨hactive, hreporting, -⟩ := hcalm
  have hs := h.station
  have hempty : P.queue = [] → P.rank K = P.pc.rank K := fun hqueue => by
    rw [PlaneThread.rank, hqueue]
    rfl
  cases hst : P.pc.station with
  | rest w =>
    rw [hst] at hs
    have hrank := PlanePc.rank_rest (K := K) hst
    cases hs.2.2.2.2 with
    | retired _ queue _ => exact (hempty queue).trans_le hrank
    | waiting _ queue _ => exact (hempty queue).trans_le hrank
    | started _ queue _ _ => simp [PlaneThread.active, hst, queue] at hactive
    | leaving _ _ _ _ _ ending => cases ending
  | gone =>
    rw [hst] at hs
    have hexited : P.pc = .exited := by
      cases hpc : P.pc with
      | exited => rfl
      | safe action => cases action <;> simp [hpc, PlanePc.station] at hst
      | report _ pc => cases pc <;> simp [hpc, PlanePc.station] at hst
      | top | lockConn _ | send _ | unlockConn _ | reply _ | cont | lockLeft _ | dec _
      | unlockLeft _ => simp [hpc, PlanePc.station] at hst
    rw [hempty hs.2.2.2.1, hexited]
    exact Nat.zero_le 3
  | work w | asked w | finished w => simp [PlaneThread.active, hst] at hactive
  | reporting w => simp [PlaneThread.reporting, hst] at hreporting

/-- The inbox of the map is empty if no airline has a message there. -/
theorem Sim.inbox_eq_nil {T : Turn} {sts : List Status} (h : Sim s T sts)
    (hout : ∀ a < s.airlines.length, s.out a = []) : s.inbox = [] := by
  by_contra hne
  obtain ⟨⟨a, msg⟩, hmem⟩ := List.exists_mem_of_ne_nil _ hne
  have hin : msg ∈ s.out a := List.mem_filterMap.mpr ⟨(a, msg), hmem, by simp⟩
  rw [hout a (h.inbox _ hmem)] at hin
  cases hin

/-- Between two turns there is little to do before the next one. -/
theorem Sim.load_le {T : Turn} {sts : List Status} (h : Sim s T sts) (hb : s.AtBoundary)
    (hw : s.Within K) : s.load K ≤ idleWork K s.airlines.length := by
  have hpc := h.pc
  rw [System.AtBoundary] at hb
  rw [hb] at hpc
  obtain ⟨-, hwaiting⟩ := hpc
  have hquiet : ∀ {a A}, s.airlines[a]? = some A → ∃ ts,
      AirlineOk a T.phase .waiting A ts (s.out a) (s.pc.pend a) := by
    intro a A hA
    obtain ⟨ts, st, hat⟩ := h.exists_at_of_system hA
    obtain rfl := hwaiting st (List.mem_of_getElem? hat.status)
    exact ⟨ts, h.airline a A ts _ hat⟩
  have hinbox : s.inbox = [] := h.inbox_eq_nil fun a ha => by
    obtain ⟨ts, hok⟩ := hquiet (List.getElem?_eq_getElem ha)
    exact Quiet.out hok.status
  have hairline : ∀ A ∈ s.airlines, A.rank K ≤ 6 * K + 6 := by
    intro A hA
    obtain ⟨a, ha⟩ := List.mem_iff_getElem?.mp hA
    obtain ⟨ts, hok⟩ := hquiet ha
    have hlisten : A.pc.rank K ≤ 3 * K + 6 := by
      rcases Quiet.listener hok.status with hpc | hpc | hpc <;> rw [hpc] <;>
        simp only [ListenPc.rank, ReportPc.rank] <;> omega
    have hmail : A.inbox = [] := Quiet.inbox hok.status
    have hplanes : (A.planes.map (·.rank K)).sum ≤ A.planes.length * 3 := by
      have := List.sum_le_card_nsmul (A.planes.map (·.rank K)) 3 (by
        simp only [List.mem_map, forall_exists_index, and_imp, forall_apply_eq_imp_iff₂]
        intro P hP
        obtain ⟨p, hp⟩ := List.mem_iff_getElem?.mp hP
        obtain ⟨t, ht⟩ := hok.exists_abstract hp
        exact (hok.planeOk hp ht).rank_le (Quiet.calm hok.status p P t hp ht))
      simpa using this
    have hlen := hw A hA
    unfold AirlineState.rank
    rw [hmail]
    show _ + 0 + _ ≤ _
    omega
  have hsum := sum_rank_le _ hairline
  unfold System.load
  rw [hb, hinbox]
  simp only [MapPc.rank, idleWork, List.map_nil, List.sum_nil]
  rw [Nat.mul_add _ _ 8]
  rw [Nat.mul_add _ _ 6] at hsum
  omega

theorem step_of_reliable {action : Action} {es : List Event}
    (h : reliableStep cfg s action = some (es, s')) :
    step cfg s action = some (es, s') ∧ action ≠ .mapFail := by
  unfold reliableStep at h
  split at h
  · rename_i hrel
    refine ⟨h, ?_⟩
    rintro rfl
    cases hrel
  · cases h

theorem sizes_init : (System.init map airlines).sizes = airlines.map (·.planes.length) := by
  simp [System.sizes, System.init, bootstrapPlanes]

theorem sizes_run (hrun : Run (reliableStep cfg) (System.init map airlines) tr s) :
    s.sizes = (System.init map airlines).sizes := by
  refine hrun.invariant (P := fun s => s.sizes = (System.init map airlines).sizes) rfl ?_
  intro s1 action es s2 hsizes hstep
  rw [sizes_step (within_init.congr hsizes) (step_of_reliable hstep).1, hsizes]

theorem within_run (hrun : Run (reliableStep cfg) (System.init map airlines) tr s) :
    s.Within (maxPlanes airlines) ∧ s.airlines.length = airlines.length := by
  have hsizes := sizes_run hrun
  exact ⟨within_init.congr hsizes, by simpa [System.init] using length_of_sizes hsizes⟩

/-- In the middle of a turn there is no more to do than the turn. -/
theorem load_le (h : Setup map airlines) (hlist : Listing map)
    (hrun : Run (reliableStep cfg) (System.init map airlines) tr s) :
    s.load (maxPlanes airlines) ≤ idleWork (maxPlanes airlines) airlines.length +
      turnWeight (maxPlanes airlines) airlines.length := by
  induction hrun with
  | refl => exact (load_init map airlines).trans (Nat.le_add_right _ _)
  | @step tr es s1 s2 action run last ih =>
    obtain ⟨hw1, hlen1⟩ := within_run run
    obtain ⟨hstep, hfail⟩ := step_of_reliable last
    by_cases hexit : action = .exit
    · subst hexit
      cases hstep
      exact ih
    · cases declines_step hw1 hstep hexit hfail with
      | work _ _ load => exact load.le.trans ih
      | turn start _ _ load =>
        obtain ⟨T, sts, -, hsim⟩ := sim_run h run (not_crashed h hlist run)
        have hidle := hsim.load_le start hw1
        rw [hlen1] at hidle load
        omega

theorem counts_le_rank (hw : s.Within K)
    (h : exec (reliableStep cfg) s as = some (tr, s')) : as.countP Action.counts ≤ s.rank K := by
  have hkeep : ∀ s action es s', s.Within K → reliableStep cfg s action = some (es, s') →
      s'.Within K := fun _ _ _ _ hw hstep => hw.step (step_of_reliable hstep).1
  have hrank := exec_countP hkeep (System.rank K) (fun s action es s' hw hstep => by
    obtain ⟨hstep, hfail⟩ := step_of_reliable hstep
    simpa [hfail] using rank_step hw hstep) hw h
  omega

/-- **A prompt end.** Once the exit flag is up, what is left is at most the turn in progress: the
number of steps does not depend on the turns that were still to come. -/
theorem steps_after_exit_le (h : Setup map airlines) (hlist : Listing map)
    (hrun : Run (reliableStep cfg) (System.init map airlines) tr s) (hexit : s.exitState = true)
    (hexec : exec (reliableStep cfg) s as = some (tr', s')) :
    as.countP Action.counts ≤ idleWork (maxPlanes airlines) airlines.length +
      turnWeight (maxPlanes airlines) airlines.length := by
  obtain ⟨hw, -⟩ := within_run hrun
  refine (counts_le_rank hw hexec).trans ?_
  have hload := load_le h hlist hrun
  have hrank : s.rank (maxPlanes airlines) = s.load (maxPlanes airlines) := by
    simp [System.rank, System.turnsLeft, hexit]
  rw [hrank]
  exact hload

theorem steps_after_exit_le_trio :
    ∃ tr s tr' s', Run (reliableStep someConfig) (System.init trioMap trioAirlines) tr s ∧
      s.exitState = true ∧ exec (reliableStep someConfig) s [.map, .map] = some (tr', s') ∧
      [Action.map, .map].countP Action.counts ≤
        idleWork (maxPlanes trioAirlines) trioAirlines.length +
          turnWeight (maxPlanes trioAirlines) trioAirlines.length := by
  obtain ⟨tr, s, tr', s', hexec, hexit, hrest⟩ : ∃ tr s tr' s',
      exec (reliableStep someConfig) (System.init trioMap trioAirlines) (toUnload ++ [.exit]) =
        some (tr, s) ∧ s.exitState = true ∧
        exec (reliableStep someConfig) s [.map, .map] = some (tr', s') :=
    ⟨_, _, _, _, rfl, rfl, rfl⟩
  have hrun := run_of_exec hexec
  exact ⟨tr, s, tr', s', hrun, hexit, hrest,
    steps_after_exit_le setup_trio listing_trio hrun hexit hrest⟩

/-- **The simulation finishes.** However far the threads have come, in whatever order, they can go
on until the map has returned and every thread has ended, and all of it takes at most
`scheduleLength` steps. -/
theorem exists_final (h : Setup map airlines) (hlist : Listing map)
    (hcap : ∀ capacity, cfg.capacity = some capacity → 1 ≤ capacity)
    (hexec : exec (reliableStep cfg) (System.init map airlines) as = some (tr, s)) :
    ∃ as' tr' s', exec (reliableStep cfg) s as' = some (tr', s') ∧ Final s' ∧
      (as ++ as').countP Action.counts ≤ scheduleLength airlines := by
  have hprogress : ∀ s1, (∃ tr, Run (reliableStep cfg) (System.init map airlines) tr s1) →
      ¬Final s1 → ∃ action es s2, reliableStep cfg s1 action = some (es, s2) ∧
        s2.rank (maxPlanes airlines) < s1.rank (maxPlanes airlines) := by
    rintro s1 ⟨tr1, hrun⟩ hnot
    obtain ⟨T, sts, -, hsim⟩ := sim_run h hrun (not_crashed h hlist hrun)
    obtain ⟨action, es, s2, hexit, hstep⟩ := (hsim.enabled hcap).resolve_right hnot
    have hlast := step_of_reliable hstep
    exact ⟨action, es, s2, hstep,
      (declines_step (within_run hrun).1 hlast.1 hexit hlast.2).rank_lt⟩
  obtain ⟨as', tr', s', hexec', hfinal⟩ := exists_exec_of_rank
    (fun _ _ _ _ ⟨_, hrun⟩ hstep => ⟨_, hrun.step hstep⟩) (System.rank (maxPlanes airlines))
    hprogress ⟨tr, run_of_exec hexec⟩
  exact ⟨as', tr', s', hexec', hfinal,
    (counts_le_rank within_init (exec_append hexec hexec')).trans (rank_init map airlines)⟩

theorem exists_final_trio :
    ∃ tr s as tr' s',
      exec (reliableStep tightConfig) (System.init trioMap trioAirlines) toUnload = some (tr, s) ∧
      exec (reliableStep tightConfig) s as = some (tr', s') ∧ Final s' := by
  obtain ⟨tr, s, hexec⟩ : ∃ tr s,
      exec (reliableStep tightConfig) (System.init trioMap trioAirlines) toUnload = some (tr, s) :=
    ⟨_, _, rfl⟩
  obtain ⟨as, tr', s', hrest, hfinal, -⟩ := exists_final setup_trio listing_trio
    (by rintro capacity ⟨⟩; exact le_rfl) hexec
  exact ⟨tr, s, as, tr', s', hexec, hrest, hfinal⟩

end Runs

end PlaneSim
