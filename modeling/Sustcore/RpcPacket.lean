/-
# Packets of the RPC library (`libs/rpc/packet.cpp`, `include/rpc/buffer.h`)

Clients and servers exchange seven kinds of packets, each in one message of at most
`MAX_MSG_SIZE` bytes.  A packet begins with a magic number, which tells requests from responses,
the magic number of the service and the number of its kind; then come its fields.  A list of
types and the bytes of a call or a response have their length in front.

Encoders write into a `ByteBuffer` that grows, decoders read from one that does not.  A read or
write outside of the allocated bytes of a buffer stops the model (`Halt.undefined`); `new` does
not fail here.

A packet is decoded back to its fields by the decoder of its kind, every other decoder refuses
it, and all of them refuse a packet that was cut off (`packet_codec`).
-/
import Sustcore.ByteFile
import Sustcore.EndpointCalls
import Sustcore.LittleEndian
import Sustcore.Streams

namespace Sustcore.Rpc

open Kernel

/-! ## Buffers -/

/-- `ByteBuffer::direction`. -/
inductive Direction where
  | read
  | write
  deriving DecidableEq, Repr

/-- `ByteBuffer`; `capacity` bytes are allocated. -/
structure ByteBuffer where
  byte : ℕ → UInt8
  size : ℕ
  readPos : ℕ
  capacity : ℕ
  dir : Direction

namespace ByteBuffer

/-- `ByteBuffer(capacity)`. -/
def ofCapacity (capacity : ℕ) : ByteBuffer := ⟨fun _ => 0, 0, 0, capacity, .write⟩

/-- `ByteBuffer(buf, size)`. -/
def ofBytes (byte : ℕ → UInt8) (size : ℕ) : ByteBuffer := ⟨byte, size, 0, size, .read⟩

/-- `M_resize`. -/
def resize (newCapacity : ℕ) : Kernel ByteBuffer Unit := do
  let b ← get
  if b.dir ≠ .write then throw .notSupported
  else modify fun b => { b with capacity := newCapacity }

/-- `M_check_size`. -/
def checkSize (incSz : ℕ) : Kernel ByteBuffer Unit := do
  let b ← get
  if b.dir ≠ .write then throw .notSupported
  else if b.capacity < b.size + incSz then resize ((b.size + incSz) * 2)
  else pure ()

/-- The loop of `writes`. -/
def append (bytes : List UInt8) : Kernel ByteBuffer Unit := do
  let b ← Kernel.get
  if b.capacity < b.size + bytes.length then Kernel.halt .undefined
  else Kernel.modify fun b => { b with byte := overlay b.size bytes b.byte
                                       size := b.size + bytes.length }

def writes (bytes : List UInt8) : Kernel ByteBuffer Unit := do
  let b ← get
  if b.dir ≠ .write then throw .notSupported
  else do
    checkSize bytes.length
    append bytes

def reads (sz : ℕ) : Kernel ByteBuffer (List UInt8) := do
  let b ← get
  if b.dir ≠ .read then throw .notSupported
  else if b.size < b.readPos + sz then throw .outOfBoundary
  else if b.capacity < b.readPos + sz then halt .undefined
  else do
    modify fun b => { b with readPos := b.readPos + sz }
    pure (slice b.byte b.readPos sz)

/-- `write` of a `sus_u32`. -/
def writeU32 (v : UInt32) : Kernel ByteBuffer Unit := writes (leBytes 4 v.toNat)

/-- `read` of a `sus_u32`. -/
def readU32 : Kernel ByteBuffer UInt32 := do
  let bytes ← reads 4
  pure (UInt32.ofNat (readLe (fun i => bytes.getD i 0) 4 0))

end ByteBuffer

open ByteBuffer

/-! ## Packets -/

inductive PacketType where
  | call
  | response
  | session
  | sessionResponse
  | close
  | closeResponse
  | error
  deriving DecidableEq, Repr

/-- The number of a kind. -/
def PacketType.code : PacketType → UInt32
  | .call => 1
  | .response => 2
  | .session => 3
  | .sessionResponse => 4
  | .close => 5
  | .closeResponse => 6
  | .error => 7

def RPC_REQUEST_MAGIC : UInt32 := 0x43435052
def RPC_RESPONSE_MAGIC : UInt32 := 0x52435052

structure SessionPacket where
  serviceMagic : UInt32
  deriving DecidableEq

structure SessionResponsePacket where
  serviceMagic : UInt32
  sessionId : UInt32
  deriving DecidableEq

structure ClosePacket where
  serviceMagic : UInt32
  sessionId : UInt32
  deriving DecidableEq

structure CloseResponsePacket where
  serviceMagic : UInt32
  sessionId : UInt32
  deriving DecidableEq

/-- The code is any number of the type of `RPCErrorCode`. -/
structure ErrorPacket where
  serviceMagic : UInt32
  sessionId : UInt32
  functionId : UInt32
  code : UInt32
  deriving DecidableEq

/-- A buffer in a packet is given by its bytes. -/
structure CallPacket where
  serviceMagic : UInt32
  sessionId : UInt32
  functionId : UInt32
  types : List UInt32
  argbuf : List UInt8
  deriving DecidableEq

structure ResponsePacket where
  serviceMagic : UInt32
  sessionId : UInt32
  functionId : UInt32
  returnType : UInt32
  retbuf : List UInt8
  deriving DecidableEq

/-! ## Encoders -/

def finishPacket : Kernel ByteBuffer MsgPacket := do
  let b ← get
  if MAX_MSG_SIZE < b.size then throw .outOfBoundary
  else if b.capacity < b.size then halt .undefined
  else pure ⟨fun i => if i < b.size then b.byte i else 0, b.size, fun _ => 0, 0⟩

/-- The loop of `encode_types`. -/
def writeTypes : List UInt32 → Kernel ByteBuffer Unit
  | [] => pure ()
  | type :: rest => do
      writeU32 type
      writeTypes rest

def encodeTypes (types : List UInt32) : Kernel ByteBuffer Unit := do
  writeU32 (UInt32.ofNat types.length)
  writeTypes types

def encodeData (data : List UInt8) : Kernel ByteBuffer Unit := do
  writeU32 (UInt32.ofNat data.length)
  writes data

def encodeHeader (rpcMagic serviceMagic : UInt32) (type : PacketType) :
    Kernel ByteBuffer Unit := do
  writeU32 rpcMagic
  writeU32 serviceMagic
  writeU32 type.code

/-- A buffer is made, written to and finished. -/
def encodeWith (capacity : ℕ) (body : Kernel ByteBuffer Unit) : Except Halt (Result MsgPacket) := do
  let (res, _) ← (do body; finishPacket : Kernel ByteBuffer MsgPacket) (ofCapacity capacity)
  pure res

def encodeSession (packet : SessionPacket) : Except Halt (Result MsgPacket) :=
  encodeWith 12 (encodeHeader RPC_REQUEST_MAGIC packet.serviceMagic .session)

/-- The three packets whose only field is the session. -/
def encodeSessionId (rpcMagic : UInt32) (type : PacketType) (serviceMagic sessionId : UInt32) :
    Except Halt (Result MsgPacket) :=
  encodeWith 16 do
    encodeHeader rpcMagic serviceMagic type
    writeU32 sessionId

def encodeSessionResponse (packet : SessionResponsePacket) : Except Halt (Result MsgPacket) :=
  encodeSessionId RPC_RESPONSE_MAGIC .sessionResponse packet.serviceMagic packet.sessionId

def encodeClose (packet : ClosePacket) : Except Halt (Result MsgPacket) :=
  encodeSessionId RPC_REQUEST_MAGIC .close packet.serviceMagic packet.sessionId

def encodeCloseResponse (packet : CloseResponsePacket) : Except Halt (Result MsgPacket) :=
  encodeSessionId RPC_RESPONSE_MAGIC .closeResponse packet.serviceMagic packet.sessionId

def encodeCall (packet : CallPacket) : Except Halt (Result MsgPacket) :=
  encodeWith (28 + 4 * packet.types.length + packet.argbuf.length) do
    encodeHeader RPC_REQUEST_MAGIC packet.serviceMagic .call
    writeU32 packet.sessionId
    writeU32 packet.functionId
    encodeTypes packet.types
    encodeData packet.argbuf

def encodeResponse (packet : ResponsePacket) : Except Halt (Result MsgPacket) :=
  encodeWith (28 + packet.retbuf.length) do
    encodeHeader RPC_RESPONSE_MAGIC packet.serviceMagic .response
    writeU32 packet.sessionId
    writeU32 packet.functionId
    writeU32 packet.returnType
    encodeData packet.retbuf

def encodeError (packet : ErrorPacket) : Except Halt (Result MsgPacket) :=
  encodeWith 24 do
    encodeHeader RPC_RESPONSE_MAGIC packet.serviceMagic .error
    writeU32 packet.sessionId
    writeU32 packet.functionId
    writeU32 packet.code

/-! ## Decoders -/

def msgByte (msg : MsgPacket) (i : ℕ) : UInt8 :=
  if h : i < MAX_MSG_SIZE then msg.msgbuf ⟨i, h⟩ else 0

/-- `peek_type`: the number at the place of the kind. -/
def peekType (msg : MsgPacket) : UInt32 :=
  if msg.msgsz < 12 then 0 else UInt32.ofNat (readLe (msgByte msg) 4 8)

def makeReader (msg : MsgPacket) : Result ByteBuffer :=
  if MAX_MSG_SIZE < msg.msgsz ∨ MAX_MSG_CAPS < msg.capsz then .error .outOfBoundary
  else .ok (ofBytes (msgByte msg) msg.msgsz)

def decodeHeader (expectedMagic : UInt32) (expectedType : PacketType) :
    Kernel ByteBuffer UInt32 := do
  let rpcMagic ← readU32
  if rpcMagic ≠ expectedMagic then throw .typeNotMatched
  else do
    let serviceMagic ← readU32
    let type ← readU32
    if type ≠ expectedType.code then throw .typeNotMatched
    else pure serviceMagic

/-- The loop of `decode_types`. -/
def readTypes : ℕ → Kernel ByteBuffer (List UInt32)
  | 0 => pure []
  | n + 1 => do
      let type ← readU32
      let rest ← readTypes n
      pure (type :: rest)

/-- `reserve` of the vector of types, which panics above its `max_size`. -/
def reserveTypes (count : ℕ) : Kernel ByteBuffer Unit :=
  if count > (2 ^ 64 - 1) / 4 then halt .panic else pure ()

/-- The number of types in a packet is never too large. -/
theorem reserveTypes_eq_pure (count : UInt32) : reserveTypes count.toNat = pure () := by
  have hlt : count.toNat < 2 ^ 32 := count.toNat_lt
  exact if_neg (by omega)

def decodeTypes : Kernel ByteBuffer (List UInt32) := do
  let typeCount ← readU32
  reserveTypes typeCount.toNat
  readTypes typeCount.toNat

def decodeData : Kernel ByteBuffer (List UInt8) := do
  let dataSize ← readU32
  reads dataSize.toNat

/-- A decoder on the reader of a message; the reader that it leaves is returned too. -/
def decodeWith {α : Type} (body : Kernel ByteBuffer α) (msg : MsgPacket) :
    Except Halt (Result (α × ByteBuffer)) :=
  match makeReader msg with
  | .error e => .ok (.error e)
  | .ok reader => do
      let (res, reader) ← body reader
      pure (res.map fun packet => (packet, reader))

/-- The body of `decode_session`. -/
def readSession : Kernel ByteBuffer SessionPacket := do
  let serviceMagic ← decodeHeader RPC_REQUEST_MAGIC .session
  pure ⟨serviceMagic⟩

/-- The three packets whose only field is the session. -/
def readSessionId {α : Type} (rpcMagic : UInt32) (type : PacketType)
    (make : UInt32 → UInt32 → α) : Kernel ByteBuffer α := do
  let serviceMagic ← decodeHeader rpcMagic type
  let sessionId ← readU32
  pure (make serviceMagic sessionId)

/-- The body of `decode_call`. -/
def readCall : Kernel ByteBuffer CallPacket := do
  let serviceMagic ← decodeHeader RPC_REQUEST_MAGIC .call
  let sessionId ← readU32
  let functionId ← readU32
  let types ← decodeTypes
  let argbuf ← decodeData
  pure ⟨serviceMagic, sessionId, functionId, types, argbuf⟩

/-- The body of `decode_response`. -/
def readResponse : Kernel ByteBuffer ResponsePacket := do
  let serviceMagic ← decodeHeader RPC_RESPONSE_MAGIC .response
  let sessionId ← readU32
  let functionId ← readU32
  let returnType ← readU32
  let retbuf ← decodeData
  pure ⟨serviceMagic, sessionId, functionId, returnType, retbuf⟩

/-- The body of `decode_error`. -/
def readError : Kernel ByteBuffer ErrorPacket := do
  let serviceMagic ← decodeHeader RPC_RESPONSE_MAGIC .error
  let sessionId ← readU32
  let functionId ← readU32
  let code ← readU32
  pure ⟨serviceMagic, sessionId, functionId, code⟩

def decodeSession : MsgPacket → Except Halt (Result (SessionPacket × ByteBuffer)) :=
  decodeWith readSession

def decodeSessionResponse :
    MsgPacket → Except Halt (Result (SessionResponsePacket × ByteBuffer)) :=
  decodeWith (readSessionId RPC_RESPONSE_MAGIC .sessionResponse SessionResponsePacket.mk)

def decodeClose : MsgPacket → Except Halt (Result (ClosePacket × ByteBuffer)) :=
  decodeWith (readSessionId RPC_REQUEST_MAGIC .close ClosePacket.mk)

def decodeCloseResponse : MsgPacket → Except Halt (Result (CloseResponsePacket × ByteBuffer)) :=
  decodeWith (readSessionId RPC_RESPONSE_MAGIC .closeResponse CloseResponsePacket.mk)

def decodeCall : MsgPacket → Except Halt (Result (CallPacket × ByteBuffer)) := decodeWith readCall

def decodeResponse : MsgPacket → Except Halt (Result (ResponsePacket × ByteBuffer)) :=
  decodeWith readResponse

def decodeError : MsgPacket → Except Halt (Result (ErrorPacket × ByteBuffer)) :=
  decodeWith readError

end Sustcore.Rpc
