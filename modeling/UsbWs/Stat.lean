import UsbWs.Backpressure

/-!
# The traffic lines

Two counters of a process go with its sockets: `TX_BYTES` is bumped by what a
reader gets from its socket, `RX_BYTES` by what a writer takes off its queue. A
ticker looks at them every 250 ms and prints a line with a flag for each
direction: the counter is not what it was at the last line.

The counters are 64 bits wide and start over, so a flag is also down when a
multiple of that went by; else the lines say what there was to say. And with an
honest relay the two ends agree: what the writers of one side have taken is no
more than what the readers of the other have got, however often ids are used
again, sends fail and the relay session is broken off (`stat_lines`).
-/

namespace UsbWs

open Runs

namespace Conn

variable {c c' : Conn} {a : ConnAct}

/-- What the reader has got from its socket. -/
def readBytes (c : Conn) : Nat := c.reads.flatten.length

/-- What the writer has taken off its queue. -/
def takenBytes (c : Conn) : Nat := (c.got.flatMap WrMsg.bytes).length

/-- What was ever put on the writer's queue. -/
def putBytes (c : Conn) : Nat := (c.puts.flatMap WrMsg.bytes).length

theorem takenBytes_le (c : Conn) : c.takenBytes ≤ c.putBytes := by
  rw [takenBytes, putBytes, puts, List.flatMap_append, List.length_append]
  exact Nat.le_add_right _ _

@[simp] theorem putBytes_put (c : Conn) (m : WrMsg) :
    (c.put m).putBytes = c.putBytes + m.bytes.length := by
  simp [putBytes]

/-- A reader holds what it has read last, or nothing. -/
theorem step_readBytes (h : c.step a = some c') :
    c'.reader.size + c.readBytes ≤ c.reader.size + c'.readBytes := by
  rcases step_reader h with ⟨chunk, -, hr, hr', hreads, -⟩ | ⟨hr, hr', hreads, -⟩ | ⟨hr, hreads, -⟩
  · simp only [readBytes, hr, hr', hreads, Reader.size, List.flatten_append,
      List.flatten_singleton, List.length_append]
    omega
  · simp only [readBytes, hr, hr', hreads, Reader.size, Nat.le_refl]
  · simp only [readBytes, hr, hreads, Nat.le_refl]

end Conn

namespace Endpoint

variable {side : Side} {e e' : Endpoint} {a : Act}

/-! ## Measures of all connections -/

/-- A connection number that is still to come counts for nothing. -/
theorem Wf.beyond_blank (hw : e.Wf side) {c : Nat} (hc : e.numConns ≤ c) :
    (e.conns c).reader.size = 0 ∧ (e.conns c).readBytes = 0 ∧ (e.conns c).takenBytes = 0 ∧
      (e.conns c).putBytes = 0 := by
  obtain ⟨hr, hwr⟩ := hw.beyond c hc
  have hblank := hw.blank c hr
  have hwriter := hw.writer c
  simp only [Conn.WriterOk, hwr] at hwriter
  simp [hr, Reader.size, Conn.readBytes, hblank.1, Conn.takenBytes, Conn.putBytes, Conn.puts,
    hwriter.1, hwriter.2.1]

theorem Trans.total_extend (h : Trans side e a e') {g : Conn → Nat}
    (hg : ∀ c, e.numConns ≤ c → g (e.conns c) = 0) :
    e.total g = ∑ c ∈ Finset.range e'.numConns, g (e.conns c) := by
  refine Finset.sum_subset (Finset.range_mono h.numConns_le) fun c _ hc => ?_
  exact hg c (by simpa using hc)

/-- What grows no faster than something else on each connection does so on all
of them together. -/
theorem Trans.total_le (h : Trans side e a e') {f g : Conn → Nat}
    (hf : ∀ c, e.numConns ≤ c → f (e.conns c) = 0) (hg : ∀ c, e.numConns ≤ c → g (e.conns c) = 0)
    (hle : ∀ c, f (e'.conns c) + g (e.conns c) ≤ f (e.conns c) + g (e'.conns c)) :
    e'.total f + e.total g ≤ e.total f + e'.total g := by
  rw [h.total_extend hf, h.total_extend hg, total, total, ← Finset.sum_add_distrib,
    ← Finset.sum_add_distrib]
  exact Finset.sum_le_sum fun c _ => hle c

theorem Trans.total_eq (h : Trans side e a e') {g : Conn → Nat}
    (hg : ∀ c, e.numConns ≤ c → g (e.conns c) = 0)
    (heq : ∀ c, g (e'.conns c) = g (e.conns c)) : e'.total g = e.total g := by
  rw [h.total_extend hg, total]
  exact Finset.sum_congr rfl fun c _ => heq c

theorem Trans.total_at (h : Trans side e a e') {g : Conn → Nat}
    (hg : ∀ c, e.numConns ≤ c → g (e.conns c) = 0) {c : Nat} (hc : c < e.numConns)
    (hothers : ∀ d, d ≠ c → g (e'.conns d) = g (e.conns d)) :
    e'.total g + g (e.conns c) = e.total g + g (e'.conns c) := by
  have hmem : c ∈ Finset.range e'.numConns := Finset.mem_range.2 (hc.trans_le h.numConns_le)
  have hrest : ∑ d ∈ (Finset.range e'.numConns).erase c, g (e'.conns d) =
      ∑ d ∈ (Finset.range e'.numConns).erase c, g (e.conns d) :=
    Finset.sum_congr rfl fun d hd => hothers d (Finset.ne_of_mem_erase hd)
  rw [h.total_extend hg, total, ← Finset.add_sum_erase _ _ hmem, hrest,
    ← Finset.add_sum_erase _ (fun d => g (e.conns d)) hmem]
  omega

/-- What `TX_BYTES` would be if it never started over. -/
def tx (e : Endpoint) : Nat := e.total Conn.readBytes

/-- What `RX_BYTES` would be if it never started over. -/
def rx (e : Endpoint) : Nat := e.total Conn.takenBytes

/-- The payload bytes of a log. -/
def logSize (log : List Frame) : Nat := (log.map Frame.size).sum

@[simp] theorem logSize_nil : logSize [] = 0 := rfl

@[simp] theorem logSize_append (log log' : List Frame) :
    logSize (log ++ log') = logSize log + logSize log' := by simp [logSize]

@[simp] theorem logSize_singleton (f : Frame) : logSize [f] = f.size := by simp [logSize]

theorem logSize_le {log log' : List Frame} (h : log.Sublist log') : logSize log ≤ logSize log' :=
  (h.map _).sum_le_sum fun _ _ => Nat.zero_le _

/-! ## What was enqueued was read -/

/-- What the readers have read and not yet handed on. -/
def unsentSize (e : Endpoint) : Nat := e.total fun c => c.reader.size

/-- No reader but one that hands its chunk to the queue comes to hold less than
it has read. -/
theorem Trans.unsent_le (hw : e.Wf side) (h : Trans side e a e') :
    e'.unsentSize + e.tx ≤ e.unsentSize + e'.tx := by
  refine h.total_le (fun c hc => (hw.beyond_blank hc).1) (fun c hc => (hw.beyond_blank hc).2.1)
    fun c => ?_
  cases h.connChange c with
  | same hc => rw [hc]
  | accepted hnew _ _ hc | dialled hnew _ _ hc =>
      obtain ⟨-, hread, -⟩ := hw.beyond_blank (Nat.le_of_eq hnew.symm)
      rw [hc, hread]
      exact Nat.zero_le _
  | registered hacc _ hc =>
      rw [hc]
      exact Nat.add_le_add_right (Nat.zero_le _) _
  | own hv => exact Conn.step_readBytes hv
  | put _ hc | closed _ _ hc | removed _ _ hc =>
      rw [hc]
      exact Nat.le_refl _
  | sent _ _ hc | dropped _ _ hc | finished _ hc =>
      rw [hc]
      exact Nat.add_le_add_right (Nat.zero_le _) _

theorem Trans.enqueued_le (hw : e.Wf side) (h : Trans side e a e')
    (hle : logSize e.enq + e.unsentSize ≤ e.tx) : logSize e'.enq + e'.unsentSize ≤ e'.tx := by
  have hunsent := h.unsent_le hw
  rcases h.emits with henq | ⟨f, henq, hem⟩
  · rw [henq]
    omega
  · rw [henq, logSize_append, logSize_singleton]
    cases hem with
    | acceptor | close | session =>
        simp only [Frame.size]
        omega
    | @data c chunk hr hconns =>
        -- the reader that hands on the chunk holds it no longer
        have hother : ∀ d, d ≠ c → e'.conns d = e.conns d := fun d hd => by
          rw [hconns, if_neg hd]
        have hself : e'.conns c = { e.conns c with reader := .reading } := by
          rw [hconns, if_pos rfl]
        have htx : e'.tx = e.tx := h.total_eq (fun c hc => (hw.beyond_blank hc).2.1) fun d => by
          by_cases hd : d = c
          · rw [hd, hself]
            rfl
          · rw [hother d hd]
        have hlt : c < e.numConns := hw.lt_of_started c (Or.inl (by simp [hr]))
        have hsize : e'.unsentSize + chunk.length = e.unsentSize + 0 := by
          have hat := h.total_at (g := fun c => c.reader.size)
            (fun c hc => (hw.beyond_blank hc).1) hlt
            fun d hd => by rw [hother d hd]
          rwa [hself, hr] at hat
        simp only [Frame.size]
        omega

theorem enqueued_init (side : Side) :
    logSize (init side).enq + (init side).unsentSize ≤ (init side).tx := by
  cases side <;> exact Nat.le_refl 0

/-! ## What was taken was received -/

/-- What the session task has at hand and not yet put on the queue of a
writer. -/
def handSize (e : Endpoint) : Nat :=
  match e.loop.pc with
  | .handling ⟨f, .start⟩ => f.size
  | .handling ⟨_, .deliver _ m⟩ => m.bytes.length
  | _ => 0

/-- Only a receive brings the session task something. -/
theorem Trans.hand_le (h : Trans side e a e') (hrecv : ∀ f, a ≠ .recv f) :
    e'.handSize ≤ e.handSize := by
  cases hpc' : e'.loop.pc with
  | handling p =>
      cases h.comes hpc' with
      | stay hpc hrcvd => rw [handSize, hpc', ← hpc, handSize]
      | recv => exact absurd rfl (hrecv _)
      | dial | gone | close =>
          simp only [handSize, hpc']
          exact Nat.zero_le _
      | deliver hpc _ _ hm =>
          simp only [handSize, hpc', hpc]
          exact Frame.length_msg hm
  | _ =>
      simp only [handSize, hpc']
      exact Nat.zero_le _

/-- What the writers' queues were given. -/
def given (e : Endpoint) : Nat := e.total Conn.putBytes

/-- Only a delivery gives a queue something. -/
theorem Trans.given_eq (hw : e.Wf side) (h : Trans side e a e') (ha : a ≠ .deliver) :
    e'.given = e.given := by
  refine h.total_eq (fun c hc => (hw.beyond_blank hc).2.2.2) fun c => ?_
  cases h.connChange c with
  | put => exact absurd rfl ha
  | accepted hnew _ _ hc | dialled hnew _ _ hc =>
      rw [hc, (hw.beyond_blank (Nat.le_of_eq hnew.symm)).2.2.2]
      rfl
  | own hv => rw [Conn.putBytes, Conn.putBytes, (Conn.step_frame hv).2.2.2.2.1]
  | same hc => rw [hc]
  | registered _ _ hc | sent _ _ hc | dropped _ _ hc | finished _ hc | closed _ _ hc
  | removed _ _ hc =>
      rw [hc]
      rfl

theorem Trans.given_deliver (hw : e.Wf side) (h : Trans side e .deliver e') :
    e'.given + e'.handSize ≤ e.given + e.handSize := by
  have hblank : ∀ c, e.numConns ≤ c → (e.conns c).putBytes = 0 :=
    fun c hc => (hw.beyond_blank hc).2.2.2
  have hselect : ∀ {e : Endpoint}, (e.goto .select).handSize = 0 := rfl
  cases h with
  | @deliver f c m hpc hdone hroom =>
      obtain ⟨hlt, -⟩ := hw.deliver f c m hpc
      have hset : (e.setConn c ((e.conns c).put m)).given + (e.conns c).putBytes =
          e.given + ((e.conns c).put m).putBytes := total_setConn Conn.putBytes e hlt _
      have hhand : e.handSize = m.bytes.length := by rw [handSize, hpc]
      have hgiven : ((e.setConn c ((e.conns c).put m)).goto .select).given =
          (e.setConn c ((e.conns c).put m)).given := rfl
      rw [Conn.putBytes_put] at hset
      rw [hselect, hgiven, hhand]
      omega
  | deliverGone hpc hdone => exact Nat.add_le_add_left (Nat.zero_le _) _
  | shutdownGone hpc hdone => exact Nat.add_le_add_left (Nat.zero_le _) _
  | wait hsends => cases hsends

theorem Trans.given_le (hw : e.Wf side) (h : Trans side e a e')
    (hle : e.given + e.handSize ≤ logSize e.rcvd) : e'.given + e'.handSize ≤ logSize e'.rcvd := by
  have hrcvd : (∀ f, a ≠ .recv f) → e'.rcvd = e.rcvd := fun hne => by
    rcases h.rcvd_eq with heq | ⟨f, ha, -⟩
    · exact heq
    · exact absurd ha (hne f)
  cases a with
  | recv f =>
      have hgiven := h.given_eq hw (by simp)
      cases h with
      | recv hpc =>
          have hhand : ((e.receive f).goto (.handling ⟨f, .start⟩)).handSize = f.size := rfl
          rw [hgiven, hhand, goto_rcvd, receive_rcvd, logSize_append, logSize_singleton]
          omega
      | wait hsends => cases hsends
  | deliver =>
      rw [hrcvd (by simp)]
      exact (h.given_deliver hw).trans hle
  | _ =>
      have hhand := h.hand_le (by simp)
      rw [hrcvd (by simp), h.given_eq hw (by simp)]
      omega

theorem given_init (side : Side) :
    (init side).given + (init side).handSize ≤ logSize (init side).rcvd := by
  cases side <;> exact Nat.le_refl 0

theorem rx_le_given (e : Endpoint) : e.rx ≤ e.given := by
  rw [rx, given, total, total]
  exact Finset.sum_le_sum fun c _ => (e.conns c).takenBytes_le

end Endpoint

namespace Tunnel

open Endpoint

variable {C : Tunnel → Side × Act → Prop} {t : Tunnel}

/-- What a side's writers have taken was read at the other side. -/
theorem rx_le_tx (h : Reaches step C init t) (s : Side) :
    (t.ends s).rx ≤ (t.ends s.peer).tx := by
  have hgiven : ∀ r, (t.ends r).Wf r ∧
      (t.ends r).given + (t.ends r).handSize ≤ logSize (t.ends r).rcvd :=
    ends_invariant (I := fun r e => e.Wf r ∧ e.given + e.handSize ≤ logSize e.rcvd)
      (fun r => ⟨wf_init r, given_init r⟩)
      (fun hi htr => ⟨hi.1.step htr, htr.given_le hi.1 hi.2⟩) h
  have hread : ∀ r, (t.ends r).Wf r ∧
      logSize (t.ends r).enq + (t.ends r).unsentSize ≤ (t.ends r).tx :=
    ends_invariant (I := fun r e => e.Wf r ∧ logSize e.enq + e.unsentSize ≤ e.tx)
      (fun r => ⟨wf_init r, enqueued_init r⟩)
      (fun hi htr => ⟨hi.1.step htr, htr.enqueued_le hi.1 hi.2⟩) h
  have hsent : (t.ends s.peer).loop.sent.Sublist (t.ends s.peer).enq :=
    ((List.sublist_append_left _ _).trans ((slim h s.peer).sends)).trans
      (List.sublist_append_left _ _)
  calc (t.ends s).rx ≤ (t.ends s).given := rx_le_given _
    _ ≤ logSize (t.ends s).rcvd := by
        have hle := (hgiven s).2
        omega
    _ ≤ logSize (t.ends s.peer).loop.sent := logSize_le (rcvd_prefix_sent h s).sublist
    _ ≤ logSize (t.ends s.peer).enq := logSize_le hsent
    _ ≤ (t.ends s.peer).tx := by
        have hle := (hread s.peer).2
        omega

end Tunnel

/-! ## The counters and the ticker -/

/-- `TX_BYTES` or `RX_BYTES`, and what the ticker keeps of it. -/
structure Gauge where
  bytes : UInt64
  last : UInt64
  /-- What was counted since the last line. -/
  since : Nat
  /-- What was counted between two lines. -/
  windows : List Nat

namespace Gauge

def init : Gauge := ⟨0, 0, 0, []⟩

def fetchAdd (g : Gauge) (n : Nat) : Gauge :=
  { g with bytes := g.bytes + UInt64.ofNat n, since := g.since + n }

def flag (g : Gauge) : Bool := g.bytes ≠ g.last

def tick (g : Gauge) : Gauge :=
  { g with last := g.bytes, since := 0, windows := g.windows ++ [g.since] }

/-- The gauge has counted `n` bytes. -/
structure Counted (n : Nat) (g : Gauge) : Prop where
  bytes : g.bytes = UInt64.ofNat n
  last : g.last = UInt64.ofNat g.windows.sum
  total : g.windows.sum + g.since = n

theorem counted_init : Counted 0 init := ⟨rfl, rfl, rfl⟩

variable {g : Gauge} {n : Nat}

theorem Counted.fetchAdd (h : g.Counted n) (k : Nat) : (g.fetchAdd k).Counted (n + k) where
  bytes := by rw [Gauge.fetchAdd, h.bytes, UInt64.ofNat_add]
  last := h.last
  total := by rw [Gauge.fetchAdd, ← h.total, Nat.add_assoc]

theorem Counted.tick (h : g.Counted n) : g.tick.Counted n where
  bytes := h.bytes
  last := by
    have hsum : g.tick.windows.sum = n := by simp [Gauge.tick, h.total]
    rw [hsum]
    exact h.bytes
  total := by simp [Gauge.tick, h.total]

/-- Two looks at a counter tell how far it went, but for a multiple of what it
can hold. -/
theorem Counted.flag_eq (h : g.Counted n) : g.flag = decide (g.since % 2 ^ 64 ≠ 0) := by
  have hiff : g.bytes = g.last ↔ g.since % 2 ^ 64 = 0 := by
    rw [h.bytes, h.last, ← h.total, ← UInt64.toNat_inj, UInt64.toNat_ofNat', UInt64.toNat_ofNat']
    omega
  simp only [flag, ne_eq, hiff]

end Gauge

/-- A line of the ticker. -/
def statLine (tx rx : Bool) : List Char :=
  "STAT tx=".toList ++ [if tx then '1' else '0'] ++ " rx=".toList ++ [if rx then '1' else '0']

/-- The counters of a process with its ticker, and what it has printed. -/
structure Stat where
  tx : Gauge
  rx : Gauge
  lines : List (List Char)

namespace Stat

def init : Stat := ⟨.init, .init, []⟩

def fetchAdd (st : Stat) (tx rx : Nat) : Stat :=
  { st with tx := st.tx.fetchAdd tx, rx := st.rx.fetchAdd rx }

/-- One turn of the loop of `spawn_ticker`. -/
def tick (st : Stat) : Stat :=
  { tx := st.tx.tick, rx := st.rx.tick, lines := st.lines ++ [statLine st.tx.flag st.rx.flag] }

/-- The line for what was counted since the last one. -/
def windowLine (tx rx : Nat) : List Char :=
  statLine (decide (tx % 2 ^ 64 ≠ 0)) (decide (rx % 2 ^ 64 ≠ 0))

/-- The counters stand at what went by, and each line tells of its window. -/
structure Told (tx rx : Nat) (st : Stat) : Prop where
  tx : st.tx.Counted tx
  rx : st.rx.Counted rx
  length : st.tx.windows.length = st.rx.windows.length
  lines : st.lines = List.zipWith windowLine st.tx.windows st.rx.windows

theorem told_init : Told 0 0 init := ⟨Gauge.counted_init, Gauge.counted_init, rfl, rfl⟩

variable {st : Stat} {tx rx : Nat}

theorem Told.fetchAdd (h : st.Told tx rx) (j k : Nat) :
    (st.fetchAdd j k).Told (tx + j) (rx + k) :=
  ⟨h.tx.fetchAdd j, h.rx.fetchAdd k, h.length, h.lines⟩

theorem Told.tick (h : st.Told tx rx) : st.tick.Told tx rx where
  tx := h.tx.tick
  rx := h.rx.tick
  length := by simp [Stat.tick, Gauge.tick, h.length]
  lines := by
    simp only [Stat.tick, Gauge.tick, List.zipWith_append h.length, ← h.lines, h.tx.flag_eq,
      h.rx.flag_eq]
    rfl

end Stat

/-! ## What the tasks count -/

/-- What the reader adds to `TX_BYTES`. -/
def ConnAct.bytesRead : ConnAct → Nat
  | .read chunk => chunk.length
  | _ => 0

/-- What the writer adds to `RX_BYTES`. -/
def Conn.bytesTaken (c : Conn) : ConnAct → Nat
  | .pop =>
      match c.queue with
      | .data bytes :: _ => bytes.length
      | _ => 0
  | _ => 0

theorem Conn.step_counted {c c' : Conn} {a : ConnAct} (h : c.step a = some c') :
    c'.readBytes = c.readBytes + a.bytesRead ∧ c'.takenBytes = c.takenBytes + c.bytesTaken a := by
  cases a with
  | read chunk =>
      simp only [Conn.step] at h
      split at h
      · split at h <;> cases h
        simp [readBytes, takenBytes, ConnAct.bytesRead, bytesTaken]
      · cases h
  | pop =>
      simp only [Conn.step] at h
      split at h <;> cases h <;>
      · next hq => simp [readBytes, takenBytes, ConnAct.bytesRead, bytesTaken, hq, WrMsg.bytes]
  | write n =>
      simp only [Conn.step] at h
      split at h
      · split at h <;> cases h
        exact ⟨rfl, rfl⟩
      · cases h
  | readEnd | wrote | writeErr | shutdown =>
      simp only [Conn.step] at h
      split at h <;> cases h
      exact ⟨rfl, rfl⟩

def Act.bytesRead : Act → Nat
  | .conn _ a => a.bytesRead
  | _ => 0

namespace Endpoint

variable {side : Side} {e e' : Endpoint} {a : Act}

def bytesTaken (e : Endpoint) : Act → Nat
  | .conn c a => (e.conns c).bytesTaken a
  | _ => 0

/-- Nothing else is counted. -/
theorem Trans.counts_eq (hw : e.Wf side) (h : Trans side e a e') (ha : ∀ c b, a ≠ .conn c b)
    (c : Nat) : (e'.conns c).readBytes = (e.conns c).readBytes ∧
      (e'.conns c).takenBytes = (e.conns c).takenBytes := by
  cases h.connChange c with
  | own hv => exact absurd rfl (ha _ _)
  | accepted hnew _ _ hc | dialled hnew _ _ hc =>
      obtain ⟨-, hread, htaken, -⟩ := hw.beyond_blank (Nat.le_of_eq hnew.symm)
      rw [hc, hread, htaken]
      exact ⟨rfl, rfl⟩
  | same hc | registered _ _ hc | put _ hc | sent _ _ hc | dropped _ _ hc | finished _ hc
  | closed _ _ hc | removed _ _ hc =>
      rw [hc]
      exact ⟨rfl, rfl⟩

theorem Trans.counted (hw : e.Wf side) (h : Trans side e a e') :
    e'.tx = e.tx + a.bytesRead ∧ e'.rx = e.rx + e.bytesTaken a := by
  have hread : ∀ c, e.numConns ≤ c → (e.conns c).readBytes = 0 :=
    fun c hc => (hw.beyond_blank hc).2.1
  have htaken : ∀ c, e.numConns ≤ c → (e.conns c).takenBytes = 0 :=
    fun c hc => (hw.beyond_blank hc).2.2.1
  cases a with
  | conn c b =>
      cases h with
      | @conn _ _ v hv =>
          have hlt : c < e.numConns := hw.lt_of_step hv
          obtain ⟨hr, ht⟩ := Conn.step_counted hv
          have htx : (e.setConn c v).tx + (e.conns c).readBytes = e.tx + v.readBytes :=
            total_setConn Conn.readBytes e hlt v
          have hrx : (e.setConn c v).rx + (e.conns c).takenBytes = e.rx + v.takenBytes :=
            total_setConn Conn.takenBytes e hlt v
          simp only [Act.bytesRead, bytesTaken]
          omega
      | wait hsends => cases hsends
  | _ =>
      have hsame := h.counts_eq hw (by simp)
      exact ⟨h.total_eq hread fun c => (hsame c).1, h.total_eq htaken fun c => (hsame c).2⟩

end Endpoint

/-! ## Both processes with their tickers -/

structure Watched where
  tunnel : Tunnel
  stats : Side → Stat

inductive WatchAct where
  | task (s : Side) (a : Act)
  | tick (s : Side)
  deriving DecidableEq, Repr

namespace Watched

open Endpoint

def init : Watched := ⟨.init, fun _ => .init⟩

def setStat (w : Watched) (s : Side) (st : Stat) : Watched :=
  { w with stats := Function.update w.stats s st }

/-- A stretch of a task counts what it moves; a ticker may come at any time. -/
def step (w : Watched) : WatchAct → Option Watched
  | .task s a =>
      (w.tunnel.step (s, a)).map fun t =>
        { w with tunnel := t }.setStat s
          ((w.stats s).fetchAdd a.bytesRead ((w.tunnel.ends s).bytesTaken a))
  | .tick s => some (w.setStat s (w.stats s).tick)

variable {w w' : Watched}

@[simp] theorem setStat_tunnel (w : Watched) (s : Side) (st : Stat) :
    (w.setStat s st).tunnel = w.tunnel := rfl

theorem setStat_self (w : Watched) (s : Side) (st : Stat) : (w.setStat s st).stats s = st :=
  Function.update_self ..

theorem setStat_peer (w : Watched) (s : Side) (st : Stat) :
    (w.setStat s st).stats s.peer = w.stats s.peer :=
  Function.update_of_ne s.peer_ne ..

/-- The tickers are not seen by the tunnel. -/
theorem reaches_tunnel (h : Reaches step Free init w) :
    Reaches Tunnel.step Free Tunnel.init w.tunnel := by
  refine h.invariant (I := fun w => Reaches Tunnel.step Free Tunnel.init w.tunnel)
    (Reaches.refl _) ?_
  rintro w (⟨s, a⟩ | s) w' _ hs hreach
  · obtain ⟨t, ht, rfl⟩ := Option.map_eq_some_iff.1 hs
    exact hreach.tail trivial ht
  · cases hs
    exact hreach

theorem told (h : Reaches step Free init w) (s : Side) :
    (w.stats s).Told (w.tunnel.ends s).tx (w.tunnel.ends s).rx := by
  refine h.invariant_of (P := fun _ => True)
    (I := fun w => ∀ s, (w.stats s).Told (w.tunnel.ends s).tx (w.tunnel.ends s).rx)
    (fun _ _ => trivial) ?_ ?_ trivial s
  · intro _ r
    cases r <;> exact Stat.told_init
  · rintro w (⟨s, a⟩ | s) w' hreach - hs - htold r
    · obtain ⟨t, ht, rfl⟩ := Option.map_eq_some_iff.1 hs
      obtain ⟨e, htr, rfl, -⟩ := Tunnel.trans_of_step ht
      have hwf := Tunnel.wf_of_reaches (reaches_tunnel hreach) s
      obtain ⟨htx, hrx⟩ := htr.counted hwf
      rcases r.eq_or_eq_peer s with rfl | rfl
      · rw [setStat_self, setStat_tunnel, Tunnel.put_ends_self, htx, hrx]
        exact (htold r).fetchAdd _ _
      · rw [setStat_peer, setStat_tunnel, Tunnel.put_ends_peer]
        exact htold _
    · cases hs
      rcases r.eq_or_eq_peer s with rfl | rfl
      · rw [setStat_self, setStat_tunnel]
        exact (htold r).tick
      · rw [setStat_peer, setStat_tunnel]
        exact htold _

/-- In every run with a relay that passes on in order what it is given and nothing
else, whatever fails and whenever the tickers come: each line of a
side tells for both directions whether anything went by since the line before
it, up to a multiple of `2 ^ 64` bytes; the windows between the lines and what
came after the last of them are all that its readers got and all that its
writers took; and its writers took no more than the readers of its peer got. -/
theorem stat_lines (h : Reaches step Free init w) (s : Side) :
    (w.stats s).lines =
      List.zipWith Stat.windowLine (w.stats s).tx.windows (w.stats s).rx.windows ∧
    (w.stats s).tx.windows.length = (w.stats s).rx.windows.length ∧
    (w.stats s).tx.windows.sum + (w.stats s).tx.since = (w.tunnel.ends s).tx ∧
    (w.stats s).rx.windows.sum + (w.stats s).rx.since = (w.tunnel.ends s).rx ∧
    (w.tunnel.ends s).rx ≤ (w.tunnel.ends s.peer).tx := by
  have htold := told h s
  exact ⟨htold.lines, htold.length, htold.tx.total, htold.rx.total,
    Tunnel.rx_le_tx (reaches_tunnel h) s⟩

def tasks (s : Side) (as : List Act) : List WatchAct := as.map (.task s)

/-- Home reads three bytes that the gate's writer takes. Home prints after and once
more, the gate before and after. -/
def blink : List WatchAct :=
  WatchAct.tick .connect ::
  tasks .listen [.loop .relayUp, .accept, .sendOpen, .register, .loop .dequeue, .loop .sendOk] ++
  tasks .connect [.loop .relayUp, .recv (.tcpOpen 0), .dispatch, .dialOk] ++
  tasks .listen [.conn 0 (.read [1, 2, 3]), .sendData 0, .loop .dequeue, .loop .sendOk] ++
  [WatchAct.tick .listen, WatchAct.tick .listen] ++
  tasks .connect [.recv (.tcpData 0 [1, 2, 3]), .dispatch, .deliver, .conn 0 .pop] ++
  [WatchAct.tick .connect]

theorem stat_lines_blink : ∃ w : Watched,
    (w.stats .listen).lines = [statLine true false, statLine false false] ∧
    (w.stats .connect).lines =
      List.zipWith Stat.windowLine (w.stats .connect).tx.windows (w.stats .connect).rx.windows ∧
    (w.stats .connect).rx.windows = [0, 3] ∧
    (w.tunnel.ends .connect).rx ≤ (w.tunnel.ends .listen).tx := by
  have hrun : (run (guarded step Free) init blink).any (fun w =>
      (w.stats .listen).lines = [statLine true false, statLine false false] ∧
      (w.stats .connect).rx.windows = [0, 3]) = true := by
    decide +kernel
  obtain ⟨w, hreach, hw⟩ := exists_of_run_any hrun
  obtain ⟨hlisten, hconnect⟩ := of_decide_eq_true hw
  obtain ⟨hlines, -, -, -, hle⟩ := stat_lines hreach .connect
  exact ⟨w, hlisten, hlines, hconnect, hle⟩

end Watched

end UsbWs
