/-
# Encoding and decoding of RPC packets

What the decoders accept.  A reader is seen as the bytes that are left in it, a writer as those
that were written, and `Parses`, `Rejects` and `Writes` follow the code of the decoders and
encoders from the numbers up to the packets:

* `RpcPacket.writes` : the encoder of a packet writes `RpcPacket.bytes`;
* `RpcPacket.parses` : the decoder of its kind reads exactly these bytes;
* `RpcPacket.rejects` : the decoder of another kind refuses them.
-/
import Sustcore.KernelRules
import Sustcore.RpcPacket

namespace Sustcore.Rpc

open ByteBuffer Kernel List

/-! ## Readers and writers -/

def Reader (b : ByteBuffer) (l : List UInt8) : Prop :=
  b.dir = .read ∧ b.size ≤ b.capacity ∧ b.readPos + l.length = b.size ∧
    slice b.byte b.readPos l.length = l

/-- The buffer is written to, and has these bytes. -/
def Writer (b : ByteBuffer) (l : List UInt8) : Prop :=
  b.dir = .write ∧ b.size ≤ b.capacity ∧ b.size = l.length ∧ slice b.byte 0 l.length = l

theorem reader_ofBytes (byte : ℕ → UInt8) (size : ℕ) :
    Reader (ofBytes byte size) (slice byte 0 size) := by
  refine ⟨rfl, le_rfl, ?_, ?_⟩
  · rw [length_slice]
    exact zero_add size
  · rw [length_slice]
    rfl

theorem writer_ofCapacity (capacity : ℕ) : Writer (ofCapacity capacity) [] :=
  ⟨rfl, Nat.zero_le _, rfl, rfl⟩

theorem slice_eq_append {f : ℕ → UInt8} {off : ℕ} (xs : List UInt8) {ys : List UInt8}
    (h : slice f off (xs ++ ys).length = xs ++ ys) :
    slice f off xs.length = xs ∧ slice f (off + xs.length) ys.length = ys := by
  rw [length_append, ← slice_add] at h
  exact append_inj h (length_slice _ _ _)

theorem parses_reads (xs : List UInt8) : Parses Reader (reads xs.length) xs xs where
  reads := by
    rintro b rest ⟨hdir, hcap, hsize, hslice⟩
    rw [length_append] at hsize
    obtain ⟨hxs, hrest⟩ := slice_eq_append _ hslice
    refine ⟨{ b with readPos := b.readPos + xs.length }, ?_, hdir, hcap, ?_, hrest⟩
    · unfold reads
      rw [get_bind, if_neg (by simp [hdir]), if_neg (by omega), if_neg (by omega),
        modify_bind, hxs]
      rfl
    · show b.readPos + xs.length + rest.length = b.size
      omega
  refuses := by
    rintro b p ⟨hdir, -, hsize, -⟩ hp hne
    have hlen : p.length < xs.length := by
      rcases lt_or_ge p.length xs.length with hlt | hge
      · exact hlt
      · exact absurd (hp.eq_of_length_le hge) hne
    refine ⟨.outOfBoundary, b, ?_⟩
    unfold reads
    rw [get_bind, if_neg (by simp [hdir]), if_pos (by omega)]
    rfl

theorem readLe_u32 (v : UInt32) :
    UInt32.ofNat (readLe (fun i => (leBytes 4 v.toNat).getD i 0) 4 0) = v := by
  rw [readLe_leBytes, Nat.mod_eq_of_lt (show v.toNat < 256 ^ 4 from v.toNat_lt)]
  exact UInt32.ofNat_toNat

theorem parses_readU32 (v : UInt32) : Parses Reader readU32 (leBytes 4 v.toNat) v := by
  have hreads := parses_reads (leBytes 4 v.toNat)
  have h := hreads.bind_pure
    (f := fun bytes => UInt32.ofNat (readLe (fun i => bytes.getD i 0) 4 0))
  rwa [readLe_u32] at h

theorem writes_writes (xs : List UInt8) : Writes Writer (writes xs) xs := by
  rintro b l ⟨hdir, hcap, hsize, hslice⟩
  -- what the loop leaves, with any capacity that is large enough
  have happend : ∀ capacity, b.size + xs.length ≤ capacity →
      append xs { b with capacity := capacity } = .ok (.ok (), ⟨overlay b.size xs b.byte,
        b.size + xs.length, b.readPos, capacity, b.dir⟩) := by
    intro capacity hle
    unfold append
    rw [get_bind, if_neg (not_lt.mpr hle)]
    rfl
  have hbytes : slice (overlay b.size xs b.byte) 0 (l ++ xs).length = l ++ xs := by
    rw [length_append, ← slice_add]
    congr 1
    · nth_rewrite 2 [← hslice]
      apply slice_congr
      intro k hk
      exact overlay_of_lt (by omega)
    · apply ext_getElem
      · rw [length_slice]
      · intro k hk hk'
        simp only [slice, getElem_map, getElem_range]
        rw [show 0 + l.length + k = b.size + k by omega, overlay_add hk']
        simp [hk']
  have hwriter : ∀ capacity, b.size + xs.length ≤ capacity →
      Writer ⟨overlay b.size xs b.byte, b.size + xs.length, b.readPos, capacity, b.dir⟩
        (l ++ xs) := by
    intro capacity hle
    refine ⟨hdir, hle, ?_, hbytes⟩
    rw [length_append, hsize]
  unfold writes checkSize
  rw [get_bind, if_neg (by simp [hdir])]
  by_cases hfull : b.capacity < b.size + xs.length
  · -- the buffer grows first
    refine ⟨_, ?_, hwriter ((b.size + xs.length) * 2) (by omega)⟩
    rw [bind_of_ok (a := ()) (t := { b with capacity := (b.size + xs.length) * 2 })]
    · exact happend _ (by omega)
    · rw [get_bind, if_neg (by simp [hdir]), if_pos hfull]
      unfold resize
      rw [get_bind, if_neg (by simp [hdir])]
      rfl
  · refine ⟨_, ?_, hwriter b.capacity (by omega)⟩
    rw [bind_of_ok (a := ()) (t := b)]
    · exact happend _ (by omega)
    · rw [get_bind, if_neg (by simp [hdir]), if_neg hfull]
      rfl

theorem writes_writeU32 (v : UInt32) : Writes Writer (writeU32 v) (leBytes 4 v.toNat) :=
  writes_writes _

/-! ## Lists of types and data -/

def u32Bytes (v : UInt32) : List UInt8 := leBytes 4 v.toNat

@[simp] theorem length_u32Bytes (v : UInt32) : (u32Bytes v).length = 4 := length_leBytes _ _

variable {α : Type}

theorem toNat_ofNat_length {l : List α} (h : l.length < 2 ^ 32) :
    (UInt32.ofNat l.length).toNat = l.length := UInt32.toNat_ofNat_of_lt' h

theorem writes_writeTypes (types : List UInt32) :
    Writes Writer (writeTypes types) (types.flatMap u32Bytes) := by
  induction types with
  | nil => exact Writes.nil
  | cons type rest ih => exact (writes_writeU32 type).bind ih

theorem parses_readTypes (types : List UInt32) :
    Parses Reader (readTypes types.length) (types.flatMap u32Bytes) types := by
  induction types with
  | nil => exact Parses.pure []
  | cons type rest ih =>
    exact (parses_readU32 type).bind ih.bind_pure

theorem writes_encodeTypes (types : List UInt32) : Writes Writer (encodeTypes types)
    (u32Bytes (UInt32.ofNat types.length) ++ types.flatMap u32Bytes) :=
  (writes_writeU32 _).bind (writes_writeTypes types)

theorem parses_decodeTypes (types : List UInt32) (h : types.length < 2 ^ 32) :
    Parses Reader decodeTypes
      (u32Bytes (UInt32.ofNat types.length) ++ types.flatMap u32Bytes) types := by
  apply (parses_readU32 _).bind
  rw [reserveTypes_eq_pure, toNat_ofNat_length h]
  exact parses_readTypes types

theorem writes_encodeData (data : List UInt8) :
    Writes Writer (encodeData data) (u32Bytes (UInt32.ofNat data.length) ++ data) :=
  (writes_writeU32 _).bind (writes_writes data)

theorem parses_decodeData (data : List UInt8) (h : data.length < 2 ^ 32) :
    Parses Reader decodeData (u32Bytes (UInt32.ofNat data.length) ++ data) data := by
  apply (parses_readU32 _).bind
  rw [toNat_ofNat_length h]
  exact parses_reads data

/-! ## Headers -/

def headerBytes (rpcMagic serviceMagic : UInt32) (type : PacketType) : List UInt8 :=
  u32Bytes rpcMagic ++ (u32Bytes serviceMagic ++ u32Bytes type.code)

theorem writes_encodeHeader (rpcMagic serviceMagic : UInt32) (type : PacketType) :
    Writes Writer (encodeHeader rpcMagic serviceMagic type)
      (headerBytes rpcMagic serviceMagic type) :=
  (writes_writeU32 _).bind ((writes_writeU32 _).bind (writes_writeU32 _))

theorem parses_decodeHeader (rpcMagic serviceMagic : UInt32) (type : PacketType) :
    Parses Reader (decodeHeader rpcMagic type) (headerBytes rpcMagic serviceMagic type)
      serviceMagic := by
  apply (parses_readU32 rpcMagic).bind
  rw [if_neg (by simp)]
  apply (parses_readU32 serviceMagic).bind
  have hlast : Parses Reader (if type.code ≠ type.code then throw .typeNotMatched
      else Pure.pure serviceMagic) [] serviceMagic := by
    rw [if_neg (by simp)]
    exact Parses.pure _
  have h := (parses_readU32 type.code).bind (f := fun code =>
    if code ≠ type.code then throw .typeNotMatched else Pure.pure serviceMagic) hlast
  rwa [append_nil] at h

/-- A header of another kind is refused. -/
theorem rejects_decodeHeader (expectedMagic rpcMagic serviceMagic : UInt32)
    {expectedType type : PacketType} (hne : expectedType ≠ type) :
    Rejects Reader (decodeHeader expectedMagic expectedType)
      (headerBytes rpcMagic serviceMagic type) := by
  have hcode : type.code ≠ expectedType.code := by
    cases expectedType <;> cases type <;> first | decide | exact absurd rfl hne
  apply (parses_readU32 rpcMagic).bind_rejects
  by_cases hmagic : rpcMagic = expectedMagic
  · rw [if_neg (not_not.mpr hmagic)]
    apply (parses_readU32 serviceMagic).bind_rejects
    have hlast : Rejects Reader (if type.code ≠ expectedType.code then
        throw .typeNotMatched else Pure.pure serviceMagic) [] := by
      rw [if_pos hcode]
      exact Rejects.throw _ _
    have h := (parses_readU32 type.code).bind_rejects (f := fun code =>
      if code ≠ expectedType.code then throw .typeNotMatched else Pure.pure serviceMagic)
      hlast
    rwa [append_nil] at h
  · rw [if_pos hmagic]
    exact Rejects.throw _ _

/-! ## Packets -/

/-- A packet of one of the seven kinds. -/
inductive RpcPacket where
  | session (packet : SessionPacket)
  | sessionResponse (packet : SessionResponsePacket)
  | close (packet : ClosePacket)
  | closeResponse (packet : CloseResponsePacket)
  | call (packet : CallPacket)
  | response (packet : ResponsePacket)
  | error (packet : ErrorPacket)

namespace RpcPacket

def type : RpcPacket → PacketType
  | session _ => .session
  | sessionResponse _ => .sessionResponse
  | close _ => .close
  | closeResponse _ => .closeResponse
  | call _ => .call
  | response _ => .response
  | error _ => .error

def encode : RpcPacket → Except Halt (Result MsgPacket)
  | session packet => encodeSession packet
  | sessionResponse packet => encodeSessionResponse packet
  | close packet => encodeClose packet
  | closeResponse packet => encodeCloseResponse packet
  | call packet => encodeCall packet
  | response packet => encodeResponse packet
  | error packet => encodeError packet

/-- The number of bytes of the encoding. -/
def encodedSize : RpcPacket → ℕ
  | session _ => 12
  | sessionResponse _ | close _ | closeResponse _ => 16
  | call packet => 28 + 4 * packet.types.length + packet.argbuf.length
  | response packet => 28 + packet.retbuf.length
  | error _ => 24

def magic : RpcPacket → UInt32
  | session _ | close _ | call _ => RPC_REQUEST_MAGIC
  | sessionResponse _ | closeResponse _ | response _ | error _ => RPC_RESPONSE_MAGIC

def service : RpcPacket → UInt32
  | session packet => packet.serviceMagic
  | sessionResponse packet => packet.serviceMagic
  | close packet => packet.serviceMagic
  | closeResponse packet => packet.serviceMagic
  | call packet => packet.serviceMagic
  | response packet => packet.serviceMagic
  | error packet => packet.serviceMagic

/-- The bytes of the fields behind the header. -/
def body : RpcPacket → List UInt8
  | session _ => []
  | sessionResponse packet => u32Bytes packet.sessionId
  | close packet => u32Bytes packet.sessionId
  | closeResponse packet => u32Bytes packet.sessionId
  | call packet =>
    u32Bytes packet.sessionId ++ (u32Bytes packet.functionId ++
      ((u32Bytes (UInt32.ofNat packet.types.length) ++ packet.types.flatMap u32Bytes) ++
        (u32Bytes (UInt32.ofNat packet.argbuf.length) ++ packet.argbuf)))
  | response packet =>
    u32Bytes packet.sessionId ++ (u32Bytes packet.functionId ++ (u32Bytes packet.returnType ++
      (u32Bytes (UInt32.ofNat packet.retbuf.length) ++ packet.retbuf)))
  | error packet =>
    u32Bytes packet.sessionId ++ (u32Bytes packet.functionId ++ u32Bytes packet.code)

def header (p : RpcPacket) : List UInt8 := headerBytes p.magic p.service p.type

def bytes (p : RpcPacket) : List UInt8 := p.header ++ p.body

@[simp] theorem length_header (p : RpcPacket) : p.header.length = 12 := by
  simp [header, headerBytes]

theorem length_bytes (p : RpcPacket) : p.bytes.length = p.encodedSize := by
  cases p with
  | call packet =>
    have htypes : (packet.types.flatMap u32Bytes).length = 4 * packet.types.length := by
      simp [mul_comm]
    simp only [bytes, body, encodedSize, length_append, length_header, length_u32Bytes, htypes]
    omega
  | response packet =>
    simp only [bytes, body, encodedSize, length_append, length_header, length_u32Bytes]
    omega
  | _ => simp [bytes, body, encodedSize]

end RpcPacket

/-- The reading part of the decoder of a kind. -/
def readAs : PacketType → Kernel ByteBuffer RpcPacket
  | .session => RpcPacket.session <$> readSession
  | .sessionResponse => RpcPacket.sessionResponse <$>
      readSessionId RPC_RESPONSE_MAGIC .sessionResponse SessionResponsePacket.mk
  | .close => RpcPacket.close <$> readSessionId RPC_REQUEST_MAGIC .close ClosePacket.mk
  | .closeResponse => RpcPacket.closeResponse <$>
      readSessionId RPC_RESPONSE_MAGIC .closeResponse CloseResponsePacket.mk
  | .call => RpcPacket.call <$> readCall
  | .response => RpcPacket.response <$> readResponse
  | .error => RpcPacket.error <$> readError

/-- What a decoder returns, as a packet of any kind. -/
def asPacket {α : Type} (make : α → RpcPacket) (x : Except Halt (Result (α × ByteBuffer))) :
    Except Halt (Result (RpcPacket × ByteBuffer)) :=
  x.map fun res => res.map fun (packet, reader) => (make packet, reader)

def decodeAs : PacketType → MsgPacket → Except Halt (Result (RpcPacket × ByteBuffer))
  | .session, msg => asPacket .session (decodeSession msg)
  | .sessionResponse, msg => asPacket .sessionResponse (decodeSessionResponse msg)
  | .close, msg => asPacket .close (decodeClose msg)
  | .closeResponse, msg => asPacket .closeResponse (decodeCloseResponse msg)
  | .call, msg => asPacket .call (decodeCall msg)
  | .response, msg => asPacket .response (decodeResponse msg)
  | .error, msg => asPacket .error (decodeError msg)

theorem asPacket_decodeWith (make : α → RpcPacket) (body : Kernel ByteBuffer α) (msg : MsgPacket) :
    asPacket make (decodeWith body msg) = decodeWith (make <$> body) msg := by
  unfold asPacket decodeWith
  cases makeReader msg with
  | error e => rfl
  | ok reader =>
    show Except.map _ (body reader >>= _) = (body reader >>= _) >>= _
    cases body reader with
    | error halt => rfl
    | ok p =>
      obtain ⟨res, t⟩ := p
      cases res with
      | error e => rfl
      | ok a => rfl

theorem decodeAs_eq (type : PacketType) (msg : MsgPacket) :
    decodeAs type msg = decodeWith (readAs type) msg := by
  cases type <;> exact asPacket_decodeWith _ _ msg

/-! ## What is encoded and what is accepted -/

theorem encodeWith_eq {body : Kernel ByteBuffer Unit} {xs : List UInt8}
    (hbody : Writes Writer body xs) (capacity : ℕ) (hfit : xs.length ≤ MAX_MSG_SIZE) :
    ∃ msg, encodeWith capacity body = .ok (.ok msg) ∧ msg.msgsz = xs.length ∧ msg.capsz = 0 ∧
      slice (msgByte msg) 0 xs.length = xs := by
  obtain ⟨b, hrun, hdir, hcap, hsize, hslice⟩ := hbody _ _ (writer_ofCapacity capacity)
  rw [nil_append] at hsize hslice
  refine ⟨⟨fun i => if i < b.size then b.byte i else 0, b.size, fun _ => 0, 0⟩, ?_, hsize, rfl, ?_⟩
  · have hfinish : finishPacket b =
        .ok (.ok ⟨fun i => if i < b.size then b.byte i else 0, b.size, fun _ => 0, 0⟩, b) := by
      unfold finishPacket
      rw [get_bind, if_neg (by omega), if_neg (by omega)]
      rfl
    unfold encodeWith
    rw [bind_of_ok hrun, hfinish]
    rfl
  · nth_rewrite 2 [← hslice]
    apply slice_congr
    intro k hk
    have hmax : 0 + k < MAX_MSG_SIZE := by omega
    unfold msgByte
    rw [dif_pos hmax]
    exact if_pos (show 0 + k < b.size by omega)

theorem encodeWith_oversized {body : Kernel ByteBuffer Unit} {xs : List UInt8}
    (hbody : Writes Writer body xs) (capacity : ℕ) (hsize : MAX_MSG_SIZE < xs.length) :
    encodeWith capacity body = .ok (.error .outOfBoundary) := by
  obtain ⟨b, hrun, -, -, hlen, -⟩ := hbody _ _ (writer_ofCapacity capacity)
  rw [nil_append] at hlen
  have hfinish : finishPacket b = .ok (.error .outOfBoundary, b) := by
    unfold finishPacket
    rw [get_bind, if_pos (by omega)]
    rfl
  unfold encodeWith
  rw [bind_of_ok hrun, hfinish]
  rfl

theorem RpcPacket.writes (p : RpcPacket) :
    ∃ capacity body, p.encode = encodeWith capacity body ∧ Writes Writer body p.bytes := by
  have hheader := writes_encodeHeader p.magic p.service p.type
  cases p with
  | session packet =>
    refine ⟨_, _, rfl, ?_⟩
    unfold bytes
    rwa [show body (session packet) = [] from rfl]
  | sessionResponse packet => exact ⟨_, _, rfl, hheader.bind (writes_writeU32 _)⟩
  | close packet => exact ⟨_, _, rfl, hheader.bind (writes_writeU32 _)⟩
  | closeResponse packet => exact ⟨_, _, rfl, hheader.bind (writes_writeU32 _)⟩
  | call packet =>
    refine ⟨_, _, rfl, hheader.bind ?_⟩
    apply (writes_writeU32 _).bind
    apply (writes_writeU32 _).bind
    exact (writes_encodeTypes _).bind (writes_encodeData _)
  | response packet =>
    refine ⟨_, _, rfl, hheader.bind ?_⟩
    apply (writes_writeU32 _).bind
    apply (writes_writeU32 _).bind
    exact (writes_writeU32 _).bind (writes_encodeData _)
  | error packet =>
    refine ⟨_, _, rfl, hheader.bind ?_⟩
    apply (writes_writeU32 _).bind
    exact (writes_writeU32 _).bind (writes_writeU32 _)

theorem RpcPacket.encode_eq (p : RpcPacket) (hfit : p.encodedSize ≤ MAX_MSG_SIZE) :
    ∃ msg, p.encode = .ok (.ok msg) ∧ msg.msgsz = p.bytes.length ∧ msg.capsz = 0 ∧
      slice (msgByte msg) 0 p.bytes.length = p.bytes := by
  obtain ⟨capacity, body, heq, hwrites⟩ := p.writes
  rw [heq]
  rw [← length_bytes] at hfit
  exact encodeWith_eq hwrites capacity hfit

/-- A packet that does not fit is refused by its encoder. -/
theorem RpcPacket.encode_oversized (p : RpcPacket) (hsize : MAX_MSG_SIZE < p.encodedSize) :
    p.encode = .ok (.error .outOfBoundary) := by
  obtain ⟨capacity, body, heq, hwrites⟩ := p.writes
  rw [heq]
  rw [← length_bytes] at hsize
  exact encodeWith_oversized hwrites capacity hsize

/-- The decoder of the kind reads the bytes of a packet, and nothing else. -/
theorem RpcPacket.parses (p : RpcPacket) (hfit : p.encodedSize ≤ MAX_MSG_SIZE) :
    Parses Reader (readAs p.type) p.bytes p := by
  have hmax : MAX_MSG_SIZE < 2 ^ 32 := by decide
  have hheader := parses_decodeHeader p.magic p.service p.type
  cases p with
  | session packet =>
    exact (hheader.bind_pure (f := SessionPacket.mk)).bind_pure
  | sessionResponse packet =>
    exact (hheader.bind (parses_readU32 packet.sessionId).bind_pure).bind_pure
  | close packet => exact (hheader.bind (parses_readU32 packet.sessionId).bind_pure).bind_pure
  | closeResponse packet =>
    exact (hheader.bind (parses_readU32 packet.sessionId).bind_pure).bind_pure
  | call packet =>
    have hlen : 28 + 4 * packet.types.length + packet.argbuf.length ≤ MAX_MSG_SIZE := hfit
    refine (hheader.bind ?_).bind_pure (a := packet)
    apply (parses_readU32 packet.sessionId).bind
    apply (parses_readU32 packet.functionId).bind
    apply (parses_decodeTypes packet.types (by omega)).bind
    exact (parses_decodeData packet.argbuf (by omega)).bind_pure
  | response packet =>
    have hlen : 28 + packet.retbuf.length ≤ MAX_MSG_SIZE := hfit
    refine (hheader.bind ?_).bind_pure (a := packet)
    apply (parses_readU32 packet.sessionId).bind
    apply (parses_readU32 packet.functionId).bind
    apply (parses_readU32 packet.returnType).bind
    exact (parses_decodeData packet.retbuf (by omega)).bind_pure
  | error packet =>
    refine (hheader.bind ?_).bind_pure (a := packet)
    apply (parses_readU32 packet.sessionId).bind
    apply (parses_readU32 packet.functionId).bind
    exact (parses_readU32 packet.code).bind_pure

/-- The decoder of another kind refuses a packet at its header. -/
theorem RpcPacket.rejects (p : RpcPacket) {type : PacketType} (hne : type ≠ p.type) :
    Rejects Reader (readAs type) p.bytes := by
  have hread : ∀ {α : Type} (magic : UInt32) (f : UInt32 → Kernel ByteBuffer α)
      (g : α → Kernel ByteBuffer RpcPacket),
      Rejects Reader (decodeHeader magic type >>= f >>= g) p.bytes := by
    intro α magic f g
    have h := ((rejects_decodeHeader magic p.magic p.service hne).bind f p.body).bind g []
    rwa [append_nil] at h
  cases type <;> exact hread _ _ _

/-! ## Decoders return -/

/-- A reader of `size` bytes, all of them allocated. -/
def ReaderOf (size : ℕ) (b : ByteBuffer) : Prop :=
  b.dir = .read ∧ b.size = size ∧ b.size ≤ b.capacity

theorem returns_reads (size sz : ℕ) : Kernel.Returns (ReaderOf size) (reads sz) := by
  rintro b ⟨hdir, hsize, hcap⟩
  unfold reads
  rw [get_bind, if_neg (by simp [hdir])]
  by_cases hend : b.size < b.readPos + sz
  · rw [if_pos hend]
    exact ⟨_, _, rfl, hdir, hsize, hcap⟩
  · rw [if_neg hend, if_neg (by omega)]
    exact ⟨_, _, rfl, hdir, hsize, hcap⟩

theorem returns_readU32 (size : ℕ) : Kernel.Returns (ReaderOf size) readU32 :=
  (returns_reads size 4).bind fun _ => .pure _

theorem returns_decodeHeader (size : ℕ) (expectedMagic : UInt32) (expectedType : PacketType) :
    Kernel.Returns (ReaderOf size) (decodeHeader expectedMagic expectedType) := by
  refine (returns_readU32 size).bind fun rpcMagic => ?_
  refine Kernel.Returns.ite (.throw _) ?_
  refine (returns_readU32 size).bind fun serviceMagic => ?_
  refine (returns_readU32 size).bind fun type => ?_
  exact Kernel.Returns.ite (.throw _) (.pure _)

theorem returns_readTypes (size n : ℕ) : Kernel.Returns (ReaderOf size) (readTypes n) := by
  induction n with
  | zero => exact .pure _
  | succ n ih =>
    refine (returns_readU32 size).bind fun type => ?_
    exact ih.bind fun rest => .pure _

theorem returns_decodeTypes (size : ℕ) : Kernel.Returns (ReaderOf size) decodeTypes := by
  refine (returns_readU32 size).bind fun count => ?_
  rw [reserveTypes_eq_pure]
  exact returns_readTypes size _

theorem returns_decodeData (size : ℕ) : Kernel.Returns (ReaderOf size) decodeData :=
  (returns_readU32 size).bind fun _ => returns_reads size _

theorem returns_readSessionId (size : ℕ) (rpcMagic : UInt32) (type : PacketType)
    (make : UInt32 → UInt32 → α) :
    Kernel.Returns (ReaderOf size) (readSessionId rpcMagic type make) := by
  refine (returns_decodeHeader size _ _).bind fun serviceMagic => ?_
  exact (returns_readU32 size).bind fun sessionId => .pure _

theorem returns_readCall (size : ℕ) : Kernel.Returns (ReaderOf size) readCall := by
  refine (returns_decodeHeader size _ _).bind fun serviceMagic => ?_
  refine (returns_readU32 size).bind fun sessionId => ?_
  refine (returns_readU32 size).bind fun functionId => ?_
  refine (returns_decodeTypes size).bind fun types => ?_
  exact (returns_decodeData size).bind fun argbuf => .pure _

theorem returns_readSession (size : ℕ) : Kernel.Returns (ReaderOf size) readSession :=
  (returns_decodeHeader size _ _).bind fun _ => .pure _

/-- No decoder leaves the message that it reads, whatever the message is. -/
theorem returns_readAs (size : ℕ) (type : PacketType) :
    Kernel.Returns (ReaderOf size) (readAs type) := by
  cases type with
  | session => exact (returns_readSession size).bind fun _ => .pure _
  | sessionResponse => exact (returns_readSessionId size _ _ _).bind fun _ => .pure _
  | close => exact (returns_readSessionId size _ _ _).bind fun _ => .pure _
  | closeResponse => exact (returns_readSessionId size _ _ _).bind fun _ => .pure _
  | call => exact (returns_readCall size).bind fun _ => .pure _
  | response =>
    refine Kernel.Returns.bind ?_ fun _ => .pure _
    refine (returns_decodeHeader size _ _).bind fun serviceMagic => ?_
    refine (returns_readU32 size).bind fun sessionId => ?_
    refine (returns_readU32 size).bind fun functionId => ?_
    refine (returns_readU32 size).bind fun returnType => ?_
    exact (returns_decodeData size).bind fun retbuf => .pure _
  | error =>
    refine Kernel.Returns.bind ?_ fun _ => .pure _
    refine (returns_decodeHeader size _ _).bind fun serviceMagic => ?_
    refine (returns_readU32 size).bind fun sessionId => ?_
    refine (returns_readU32 size).bind fun functionId => ?_
    exact (returns_readU32 size).bind fun code => .pure _

theorem readerOf_ofBytes (byte : ℕ → UInt8) (size : ℕ) : ReaderOf size (ofBytes byte size) :=
  ⟨rfl, rfl, le_rfl⟩

/-! ## Messages -/

variable {msg : MsgPacket} {body : Kernel ByteBuffer α}

theorem decodeWith_of_fits (hsize : msg.msgsz ≤ MAX_MSG_SIZE) (hcaps : msg.capsz ≤ MAX_MSG_CAPS) :
    decodeWith body msg = (do
      let (res, reader) ← body (ofBytes (msgByte msg) msg.msgsz)
      pure (res.map fun packet => (packet, reader))) := by
  unfold decodeWith makeReader
  rw [if_neg (by omega)]

theorem decodeWith_error (hsize : msg.msgsz ≤ MAX_MSG_SIZE) (hcaps : msg.capsz ≤ MAX_MSG_CAPS)
    (h : ∃ e t, body (ofBytes (msgByte msg) msg.msgsz) = .ok (.error e, t)) :
    ∃ e, decodeWith body msg = .ok (.error e) := by
  obtain ⟨e, t, h⟩ := h
  refine ⟨e, ?_⟩
  rw [decodeWith_of_fits hsize hcaps, h]
  rfl

theorem decodeWith_returns
    (hbody : Kernel.Returns (ReaderOf msg.msgsz) body) : ∃ res, decodeWith body msg = .ok res := by
  by_cases hsize : MAX_MSG_SIZE < msg.msgsz ∨ MAX_MSG_CAPS < msg.capsz
  · unfold decodeWith makeReader
    rw [if_pos hsize]
    exact ⟨_, rfl⟩
  · obtain ⟨r, t, hrun, -⟩ := hbody _ (readerOf_ofBytes (msgByte msg) msg.msgsz)
    rw [decodeWith_of_fits (by omega) (by omega), hrun]
    exact ⟨_, rfl⟩

theorem slice_take {f : ℕ → UInt8} {xs : List UInt8} {n : ℕ} (h : slice f 0 xs.length = xs)
    (hn : n ≤ xs.length) : slice f 0 n <+: xs := by
  refine ⟨slice f (0 + n) (xs.length - n), ?_⟩
  rw [slice_add, Nat.add_sub_cancel' hn, h]

/-- The kind is found where the header has it. -/
theorem peekType_of_bytes {p : RpcPacket} (hsize : msg.msgsz = p.bytes.length)
    (hslice : slice (msgByte msg) 0 p.bytes.length = p.bytes) : peekType msg = p.type.code := by
  have hlen : 12 ≤ p.bytes.length := by
    unfold RpcPacket.bytes
    rw [length_append, RpcPacket.length_header]
    omega
  have hheader := (slice_eq_append p.header hslice).1
  have hrest := (slice_eq_append (u32Bytes p.magic) hheader).2
  have hcode := (slice_eq_append (u32Bytes p.service) hrest).2
  unfold peekType
  rw [if_neg (by omega), ← readLe_u32 p.type.code]
  congr 1
  apply readLe_congr
  intro k hk
  rw [zero_add]
  show msgByte msg (8 + k) = (u32Bytes p.type.code).getD k 0
  rw [← hcode]
  exact (getD_slice hk).symm

/-- **The packets of all kinds**: a packet whose encoding fits is encoded, its kind is found in
the message, the decoder of the kind returns its fields and reads the message to its end, every
other decoder returns an error, and so does every decoder when the message is cut off.  No
decoder reads outside of the message. -/
theorem packet_codec (p : RpcPacket) (hfit : p.encodedSize ≤ MAX_MSG_SIZE) :
    ∃ msg, p.encode = .ok (.ok msg) ∧ peekType msg = p.type.code ∧
      (∃ reader, decodeAs p.type msg = .ok (.ok (p, reader)) ∧ reader.readPos = msg.msgsz) ∧
      (∀ type, type ≠ p.type → ∃ e, decodeAs type msg = .ok (.error e)) ∧
      ∀ n, n < msg.msgsz → ∀ type, ∃ e, decodeAs type { msg with msgsz := n } = .ok (.error e) := by
  obtain ⟨msg, hencode, hsize, hcaps, hslice⟩ := p.encode_eq hfit
  have hmax : msg.msgsz ≤ MAX_MSG_SIZE := by rwa [hsize, RpcPacket.length_bytes]
  replace hcaps : msg.capsz ≤ MAX_MSG_CAPS := by omega
  have hreader : Reader (ofBytes (msgByte msg) msg.msgsz) p.bytes := by
    have h := reader_ofBytes (msgByte msg) msg.msgsz
    rwa [hsize, hslice, ← hsize] at h
  refine ⟨msg, hencode, peekType_of_bytes hsize hslice, ?_, ?_, ?_⟩
  · obtain ⟨reader, hread, -, -, hpos, -⟩ := (p.parses hfit).reads _ [] (by
      rwa [append_nil])
    obtain ⟨r, t, ht, -, hend, -⟩ := returns_readAs msg.msgsz p.type _ (readerOf_ofBytes _ _)
    obtain ⟨-, rfl⟩ := ok_inj (hread.symm.trans ht)
    refine ⟨reader, ?_, hpos.trans hend⟩
    rw [decodeAs_eq, decodeWith_of_fits hmax hcaps, hread]
    rfl
  · intro type hne
    rw [decodeAs_eq]
    exact decodeWith_error hmax hcaps (p.rejects hne _ _ hreader (Or.inl (prefix_refl _)))
  · intro n hn type
    have hcut := reader_ofBytes (msgByte msg) n
    have hprefix := slice_take hslice (show n ≤ p.bytes.length by omega)
    rw [decodeAs_eq]
    refine decodeWith_error (le_trans (le_of_lt hn) hmax) hcaps ?_
    by_cases htype : type = p.type
    · rw [htype]
      refine (p.parses hfit).refuses _ _ hcut hprefix ?_
      intro heq
      have hlen := congrArg length heq
      rw [length_slice] at hlen
      omega
    · exact p.rejects htype _ _ hcut (Or.inl hprefix)

theorem packet_codec_call :
    ∃ msg, (RpcPacket.call ⟨7, 1, 2, [3, 4], [5, 6]⟩).encode = .ok (.ok msg) ∧
      peekType msg = 1 := by
  obtain ⟨msg, hencode, htype, -⟩ := packet_codec (.call ⟨7, 1, 2, [3, 4], [5, 6]⟩) (by decide)
  exact ⟨msg, hencode, htype⟩

end Sustcore.Rpc
