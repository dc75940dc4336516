import Mathlib.Logic.Function.Basic

namespace Goap

inductive SinkCall where
  | write (bytes : List UInt8)
  | flush
  | eof

/-- The bytes that a sink has received. -/
def received : List SinkCall → List UInt8
  | [] => []
  | .write bytes :: rest => bytes ++ received rest
  | .flush :: rest => received rest
  | .eof :: rest => received rest

theorem received_append (calls later : List SinkCall) : received (calls ++ later) = received calls ++ received later := by
  induction calls with
  | nil => rfl
  | cons call rest ih => cases call <;> simp [received, ih]

def eof : Int := -1

def toIntType (c : UInt8) : Int := c.toNat

/-- The byte 0xFF is no end of file. -/
theorem toIntType_ne_eof (c : UInt8) : toIntType c ≠ eof := by
  unfold toIntType eof
  omega

theorem ofInt_toIntType (c : UInt8) : UInt8.ofInt (toIntType c) = c := by
  have small := c.toNat_lt
  have same : ((c.toNat : Int) % 256).toNat = c.toNat := by omega
  simp [toIntType, UInt8.ofInt, same]

def BUF_SIZE : Nat := 128

/-- A stream buffer and what all sinks have been told. `pending` stands between
`pbase()` and `pptr()`. -/
structure BasicStreamBuffer (Sink : Type) where
  told : Sink → List SinkCall
  data : Sink
  pending : List UInt8
  room : pending.length ≤ BUF_SIZE

/-- What is done with a stream buffer; a null sink is `none`. -/
inductive StreamCall (Sink : Type) where
  | insert (bytes : List UInt8)
  | flush
  | setSink (data : Option Sink)

namespace BasicStreamBuffer

variable {Sink : Type} [DecidableEq Sink] (this : BasicStreamBuffer Sink)

def tell (call : SinkCall) : BasicStreamBuffer Sink :=
  { this with told := Function.update this.told this.data (this.told this.data ++ [call]) }

def write (bytes : List UInt8) : BasicStreamBuffer Sink := this.tell (.write bytes)

omit [DecidableEq Sink] in
/-- `setp(_buf, _buf + BUF_SIZE)`. -/
def setp : BasicStreamBuffer Sink := { this with pending := [], room := Nat.zero_le _ }

/-- The constructor, which throws on a null sink. -/
def new (data : Option Sink) : Option (BasicStreamBuffer Sink) :=
  data.map fun data => ⟨fun _ => [], data, [], Nat.zero_le _⟩

def overflow (c : Int) : Int × BasicStreamBuffer Sink :=
  let this := this.write this.pending
  let this := if c ≠ eof then this.write [UInt8.ofInt c] else this.tell .eof
  (c, this.setp)

def sync : BasicStreamBuffer Sink := ((this.write this.pending).tell .flush).setp

/-- `setSink`, which throws on a null sink before anything is done. -/
def setSink : Option Sink → BasicStreamBuffer Sink
  | none => this
  | some data => { ((this.write this.pending).tell .flush).setp with data }

def sputc (c : UInt8) : Int × BasicStreamBuffer Sink :=
  if free : this.pending.length < BUF_SIZE then
    (toIntType c, { this with
      pending := this.pending ++ [c]
      room := by rw [List.length_append, List.length_singleton]; exact free })
  else this.overflow (toIntType c)

/-- `std::basic_streambuf::xsputn`, which gives up at an end of file. -/
def xsputn (this : BasicStreamBuffer Sink) : List UInt8 → BasicStreamBuffer Sink
  | [] => this
  | c :: rest =>
    let (put, this) := this.sputc c
    if put = eof then this else xsputn this rest

def step (this : BasicStreamBuffer Sink) : StreamCall Sink → BasicStreamBuffer Sink
  | .insert bytes => this.xsputn bytes
  | .flush => this.sync
  | .setSink data => this.setSink data

def destroy : BasicStreamBuffer Sink := this.sync

/-- The bytes inserted while a sink is the current one, in a run that begins with
another one. -/
def insertedWhile (sink : Sink) : Sink → List (StreamCall Sink) → List UInt8
  | _, [] => []
  | data, .insert bytes :: rest => (if data = sink then bytes else []) ++ insertedWhile sink data rest
  | data, .flush :: rest => insertedWhile sink data rest
  | data, .setSink none :: rest => insertedWhile sink data rest
  | _, .setSink (some data) :: rest => insertedWhile sink data rest

def owed (sink : Sink) : List UInt8 := received (this.told sink) ++ if this.data = sink then this.pending else []

variable {this}

theorem told_tell (call : SinkCall) (sink : Sink) :
    (this.tell call).told sink = this.told sink ++ if this.data = sink then [call] else [] := by
  unfold tell
  by_cases current : this.data = sink
  · subst current
    simp
  · simp [current, Ne.symm current]

theorem owed_of_empty (empty : this.pending = []) (sink : Sink) :
    this.owed sink = received (this.told sink) := by
  rw [owed, empty, ite_self, List.append_nil]

theorem received_write (sink : Sink) : received ((this.write this.pending).told sink) = this.owed sink := by
  rw [write, told_tell, received_append, owed]
  split
  · simp [received]
  · rfl

theorem received_tell {call : SinkCall} (silent : received [call] = []) (sink : Sink) :
    received ((this.tell call).told sink) = received (this.told sink) := by
  rw [told_tell, received_append]
  split
  · rw [silent, List.append_nil]
  · exact List.append_nil _

theorem received_sync (sink : Sink) : received (this.sync.told sink) = this.owed sink :=
  (@received_tell _ _ (this.write this.pending) _ rfl sink).trans (received_write sink)

theorem owed_sync (sink : Sink) : this.sync.owed sink = this.owed sink :=
  (owed_of_empty rfl sink).trans (received_sync sink)

theorem owed_setSink (data : Option Sink) (sink : Sink) : (this.setSink data).owed sink = this.owed sink := by
  cases data with
  | none => rfl
  | some data => exact (owed_of_empty rfl sink).trans (received_sync sink)

theorem owed_overflow (c : UInt8) (sink : Sink) :
    (this.overflow (toIntType c)).2.owed sink = this.owed sink ++ if this.data = sink then [c] else [] := by
  rw [overflow, if_pos (toIntType_ne_eof c), ofInt_toIntType, owed_of_empty rfl]
  show received (((this.write this.pending).tell (.write [c])).told sink) = _
  rw [told_tell, received_append, received_write]
  show _ ++ received (if this.data = sink then _ else _) = _
  split <;> rfl

theorem sputc_spec (c : UInt8) :
    (this.sputc c).1 = toIntType c ∧ (this.sputc c).2.data = this.data ∧
      ∀ sink, (this.sputc c).2.owed sink = this.owed sink ++ if this.data = sink then [c] else [] := by
  unfold sputc
  split
  · refine ⟨rfl, rfl, ?_⟩
    intro sink
    unfold owed
    split <;> simp
  · refine ⟨rfl, ?_, owed_overflow c⟩
    rw [overflow, if_pos (toIntType_ne_eof c)]
    rfl

theorem xsputn_spec (bytes : List UInt8) : (this.xsputn bytes).data = this.data ∧
    ∀ sink, (this.xsputn bytes).owed sink = this.owed sink ++ if this.data = sink then bytes else [] := by
  induction bytes generalizing this with
  | nil => exact ⟨rfl, fun sink => by simp [xsputn]⟩
  | cons c rest ih =>
    obtain ⟨put, same, grown⟩ := this.sputc_spec c
    obtain ⟨same', grown'⟩ := @ih (this.sputc c).2
    have goes : this.xsputn (c :: rest) = (this.sputc c).2.xsputn rest := by
      show (if (this.sputc c).1 = eof then (this.sputc c).2 else (this.sputc c).2.xsputn rest) = _
      rw [put, if_neg (toIntType_ne_eof c)]
    rw [goes]
    refine ⟨same'.trans same, ?_⟩
    intro sink
    rw [grown', grown, same, List.append_assoc]
    split <;> rfl

theorem owed_run (calls : List (StreamCall Sink)) (sink : Sink) :
    (calls.foldl step this).owed sink = this.owed sink ++ insertedWhile sink this.data calls := by
  induction calls generalizing this with
  | nil => simp [insertedWhile]
  | cons call rest ih =>
    rw [List.foldl_cons, ih]
    cases call with
    | insert bytes =>
      obtain ⟨same, grown⟩ := this.xsputn_spec bytes
      rw [step, grown, same, insertedWhile, List.append_assoc]
    | flush =>
      rw [step, owed_sync]
      rfl
    | setSink data =>
      rw [step, owed_setSink]
      cases data <;> rfl

/-- When the buffer is destroyed, every sink has received exactly the bytes that were
inserted while it was the current one, in their order. -/
theorem destroy_received (data : Sink) (calls : List (StreamCall Sink)) : ∃ this, new (some data) = some this ∧
    ∀ sink, received ((calls.foldl step this).destroy.told sink) = insertedWhile sink data calls := by
  refine ⟨_, rfl, ?_⟩
  intro sink
  rw [destroy, received_sync, owed_run]
  simp [owed, received]

end BasicStreamBuffer

end Goap
