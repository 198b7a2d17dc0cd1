import Atlas.Ipc.Frame

/-!
# Trace ids: `services/ingestion/internal/adapter/trace.go`

`TraceGenerator.generate` : the id `{exchange}-{timestamp_ms}-{sequence}` of the next frame, from the clock and the
generator's counter.
-/

namespace Atlas.Adapter
open Atlas.Ipc (Bytes)

structure TraceGenerator where
  exchange : Bytes
  seq : UInt64
  deriving DecidableEq, Repr

def newTraceGenerator (exchange : Bytes) : TraceGenerator := ⟨exchange, 0⟩

/-- `%d` -/
def formatInt : Int → Bytes
  | .ofNat n => Decimal.render n
  | .negSucc n => 45 :: Decimal.render (n + 1)

/-- `fmt.Sprintf("%s-%d-%020d", exchange, ts, seq)` -/
def formatTraceID (exchange : Bytes) (ts : Int) (seq : UInt64) : Bytes :=
  exchange ++ [45] ++ formatInt ts ++ [45] ++ Decimal.renderPadded 20 seq.toNat

/-- `ts` is `time.Now().UnixMilli()`. -/
def TraceGenerator.generate (tg : TraceGenerator) (ts : Int) : Bytes × TraceGenerator :=
  let seq := tg.seq + 1
  (formatTraceID tg.exchange ts seq, { tg with seq })

theorem formatInt_of_pos {ts : Int} (h : 0 < ts) : formatInt ts = Decimal.render ts.toNat := by
  obtain ⟨n, rfl⟩ := Int.eq_ofNat_of_zero_le h.le
  rfl

end Atlas.Adapter
