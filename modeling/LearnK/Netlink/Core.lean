import LearnK.Lib.ByteMemory
import LearnK.Lib.Ledger
import LearnK.Lib.Numbered

/-!
The netlink module (`netlink/main.c`) and the program that talks to it (`netlink/netlink.c`): the
messages of any number of processes, the runs of `recv_cb` that answer them, and the ports that the
answers go to, interleaved call by call.
-/

namespace LearnK.Netlink

open ByteMemory Ledger

structure NlMsgHdr where
  nlmsgLen : UInt32
  nlmsgType : UInt16
  nlmsgFlags : UInt16
  nlmsgSeq : UInt32
  nlmsgPid : UInt32
  deriving DecidableEq, Repr

def nlmsgHdrlen : Nat := 16

def nlmsgAlign (len : Nat) : Nat := (len + 3) / 4 * 4

def nlmsgLength (payload : Nat) : Nat := nlmsgHdrlen + payload

def nlmsgSpace (payload : Nat) : Nat := nlmsgAlign (nlmsgLength payload)

def NlMsgHdr.bytes (nlh : NlMsgHdr) : List UInt8 :=
  littleEndian 4 nlh.nlmsgLen.toNat ++ (littleEndian 2 nlh.nlmsgType.toNat ++
    (littleEndian 2 nlh.nlmsgFlags.toNat ++ (littleEndian 4 nlh.nlmsgSeq.toNat ++
      littleEndian 4 nlh.nlmsgPid.toNat)))

def field (data : List UInt8) (offset width : Nat) : Nat :=
  ofLittleEndian ((data.drop offset).take width)

def nlmsgHdr (data : List UInt8) : NlMsgHdr where
  nlmsgLen := .ofNat (field data 0 4)
  nlmsgType := .ofNat (field data 4 2)
  nlmsgFlags := .ofNat (field data 6 2)
  nlmsgSeq := .ofNat (field data 8 4)
  nlmsgPid := .ofNat (field data 12 4)

def helloUserspace : List UInt8 :=
  [104, 101, 108, 108, 111, 32, 117, 115, 101, 114, 115, 112, 97, 99, 101, 0]

def stringlen : List UInt8 → Nat
  | [] => 0
  | byte :: buf => if byte = 0 then 0 else stringlen buf + 1

/-- `nlmsg_put` into an empty buffer of `room` bytes, with the payload that is copied in after it. -/
def nlmsgPut (room : Nat) (portid seq type : UInt32) (flags : UInt16) (payload : List UInt8) :
    Option (List UInt8) :=
  if room < nlmsgSpace payload.length then none
  else
    let nlh : NlMsgHdr :=
      ⟨.ofNat (nlmsgLength payload.length), type.toUInt16, flags, seq, portid⟩
    some (nlh.bytes ++ (payload ++
      List.replicate (nlmsgSpace payload.length - nlmsgLength payload.length) 0))

/-- A kernel object: a socket buffer, the further reference that `skb_get` takes to one, or a
`struct setup_param`. -/
inductive Resource
  | skb (number : Nat)
  | reference (number : Nat)
  | setup (number : Nat)
  deriving DecidableEq, Repr

/-- The next statement of `recv_cb`, those of `send_msg` included.  After the last one the caller
gives the buffer back. -/
inductive Pc
  | skbGet
  | kmalloc (nlh : NlMsgHdr)
  | nlmsgNew (pid : UInt32)
  | nlmsgPut (pid : UInt32) (nlSkb : Nat)
  | netlinkUnicast (pid : UInt32) (nlSkb : Nat) (message : List UInt8)
  | kfreeSkb
  | consumeSkb
  deriving DecidableEq, Repr

structure Frame where
  skb : Nat
  data : List UInt8
  pc : Pc
  deriving DecidableEq, Repr

structure Datagram where
  port : UInt32
  skb : Nat
  message : List UInt8
  deriving DecidableEq, Repr

/-- A call is the stack of the frames it has on it, the innermost one first.  `results` says what
each `send_msg` came to, by the port it was for. -/
structure State where
  bound : List UInt32
  waiting : List Datagram
  calls : List (List Frame)
  skbs : Nat
  setups : Nat
  events : List (Event Resource)
  requests : List (List UInt8)
  results : List (UInt32 × Option (List UInt8))
  printed : List (UInt32 × List UInt8)
  deriving DecidableEq, Repr

def initial : State := ⟨[], [], [], 0, 0, [], [], [], []⟩

def State.record (state : State) (event : Event Resource) : State :=
  { state with events := state.events ++ [event] }

def State.result (state : State) (pid : UInt32) (message : Option (List UInt8)) : State :=
  { state with results := state.results ++ [(pid, message)] }

def State.setCall (state : State) (self : Nat) (frames : List Frame) : State :=
  { state with calls := state.calls.set self frames }

def State.newSkb (state : State) : State :=
  { state.record (.alloc (.skb state.skbs)) with skbs := state.skbs + 1 }

def State.newSetup (state : State) : State :=
  { state.record (.alloc (.setup state.setups)) with setups := state.setups + 1 }

def State.queue (state : State) (datagram : Datagram) : State :=
  { state with waiting := state.waiting ++ [datagram] }

/-- One statement of the innermost frame.  `granted` is the answer of the allocator, or whether the
receiving socket has room.  The kernel's own socket has port 0, and what is sent there is handed to
`recv_cb` at once, on the same stack. -/
def recvCb (self : Nat) (granted : Bool) (frame : Frame) (below : List Frame) (state : State) : State :=
  let goto (pc : Pc) (state : State) := state.setCall self ({ frame with pc := pc } :: below)
  match frame.pc with
  | .skbGet =>
      goto (if nlmsgSpace 0 ≤ frame.data.length then .kmalloc (nlmsgHdr frame.data) else .kfreeSkb)
        (state.record (.alloc (.reference frame.skb)))
  | .kmalloc nlh => goto (.nlmsgNew nlh.nlmsgPid) (if granted then state.newSetup else state)
  | .nlmsgNew pid =>
      if granted then goto (.nlmsgPut pid state.skbs) state.newSkb
      else goto .kfreeSkb (state.result pid none)
  | .nlmsgPut pid nlSkb =>
      let len := stringlen helloUserspace
      match nlmsgPut (nlmsgSpace len) 0 0 pid 0 (helloUserspace.take len) with
      | none => goto .kfreeSkb ((state.record (.free (.skb nlSkb))).result pid none)
      | some message => goto (.netlinkUnicast pid nlSkb message) state
  | .netlinkUnicast pid nlSkb message =>
      if pid = 0 then
        state.setCall self (⟨nlSkb, message, .skbGet⟩ :: { frame with pc := .kfreeSkb } :: below)
      else if pid ∈ state.bound ∧ granted = true then
        goto .kfreeSkb ((state.queue ⟨pid, nlSkb, message⟩).result pid (some message))
      else goto .kfreeSkb ((state.record (.free (.skb nlSkb))).result pid none)
  | .kfreeSkb => goto .consumeSkb (state.record (.free (.reference frame.skb)))
  | .consumeSkb => (state.record (.free (.skb frame.skb))).setCall self below

def maxPload : Nat := 1024

/-- What the program prints of a message: it receives it into a buffer of zeros and prints the
string behind the header. -/
def printedText (message : List UInt8) : List UInt8 :=
  let received := message.take (nlmsgLength maxPload)
  let buffer := received ++ List.replicate (nlmsgSpace maxPload - received.length) 0
  (buffer.drop nlmsgHdrlen).takeWhile (· ≠ 0)

inductive Action
  | bind (port : UInt32)
  | close (port : UInt32)
  | sendto (data : List UInt8)
  | run (self : Nat) (granted : Bool)
  | recvfrom (port : UInt32)
  deriving DecidableEq, Repr

/-- Port 0 is the kernel's.  A receiver waits for a message, and closing a socket drops the messages
that wait for it. -/
def step (state : State) : Action → Option State
  | .bind port =>
      if port ≠ 0 ∧ port ∉ state.bound then some { state with bound := port :: state.bound } else none
  | .close port =>
      let dropped := state.waiting.filter (·.port = port)
      if port ∈ state.bound then
        some { state with
          bound := state.bound.erase port
          waiting := state.waiting.filter (·.port ≠ port)
          events := state.events ++ dropped.map fun datagram => .free (.skb datagram.skb) }
      else none
  | .sendto data =>
      some { state.newSkb with
        calls := state.calls ++ [[⟨state.skbs, data, .skbGet⟩]]
        requests := state.requests ++ [data] }
  | .run self granted =>
      match state.calls[self]? with
      | some (frame :: below) => some (recvCb self granted frame below state)
      | _ => none
  | .recvfrom port =>
      (state.waiting.find? (·.port = port)).map fun datagram =>
        { state.record (.free (.skb datagram.skb)) with
          waiting := state.waiting.erase datagram
          printed := state.printed ++ [(port, printedText datagram.message)] }

end LearnK.Netlink
