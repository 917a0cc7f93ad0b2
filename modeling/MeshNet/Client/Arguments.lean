import MeshNet.Format.Types
import MeshNet.Library.Scan

/-!
# The command line of the client

What `parse_args` makes of its arguments. They are strings without a zero byte, as many as `argc`
says, and behind the last stands `NULL`: to read a number or to copy a message from there crashes
the client. What `malloc` returns, the local array for the message and the locals for the
addresses of apps are memory with unknown contents, and so are the bytes of the stack behind the
array.
-/

namespace MeshNet
open Library

/-- The bytes of a string literal. -/
def ascii (s : String) : List UInt8 := s.toList.map fun c => UInt8.ofNat c.toNat

/-- A string of C, without the zero byte that ends it. -/
structure CString where
  bytes : List UInt8
  nonzero : 0 ∉ bytes
  deriving DecidableEq

/-- `0 == strcmp(s, word)`. -/
def CString.is (s : CString) (word : String) : Bool := s.bytes == ascii word

/-- The chain of comparisons with several spellings of an option. -/
def CString.oneOf (s : CString) (words : List String) : Bool := words.any s.is

/-! ## Numbers -/

/-- `isspace`. -/
def isSpace (b : UInt8) : Bool := b == 32 || (9 ≤ b && b ≤ 13)

/-- `isdigit`. -/
def isDigit (b : UInt8) : Bool := 48 ≤ b && b ≤ 57

/-- The sign in front of the digits, if any, and what follows it. -/
def sign : List UInt8 → Bool × List UInt8
  | 45 :: rest => (true, rest)
  | 43 :: rest => (false, rest)
  | rest => (false, rest)

/-- `strtol` in base ten; without a digit the end pointer is left at the start. The value is
clamped to the range of a `long`. -/
def strtol (s : List UInt8) : Option Int :=
  let (negative, rest) := sign (s.dropWhile isSpace)
  let digits := rest.takeWhile isDigit
  if digits.isEmpty then none
  else
    let n : Int := digits.foldl (fun n d => 10 * n + (d.toNat - 48 : Nat)) 0
    some (max (-9223372036854775808) (min 9223372036854775807 (if negative then -n else n)))

/-- The number that an argument stands for, cast to `uint8_t`. -/
def CString.number? (s : CString) : Option UInt8 := (strtol s.bytes).map UInt8.ofInt

namespace Client

/-! ## Memory with unknown contents -/

/-- What is found where nothing was written: in the packet that `malloc` returns, in the array for
the message, on the stack behind it up to the next zero byte, and in the locals. -/
structure Garbage where
  heap : NodePacket
  message : Message
  behind : List UInt8
  appAddrTo : UInt8
  appAddrFrom : UInt8

/-- `strlen(message)`; where the array holds no zero byte, the bytes behind it count. -/
def strlen (m : Message) (behind : List UInt8) : Nat :=
  ((m.bytes ++ behind).takeWhile (· ≠ 0)).length

/-- `strncpy(message, s, n)`: a shorter string is padded with zeros, a longer one is not ended. -/
def strncpy (m : Message) (s : CString) (n : Nat) : Message :=
  m.memcpy ((s.bytes ++ List.replicate n 0).take n)

/-- `strcpy(message, s)`. -/
def strcpy (m : Message) (s : CString) : Message := m.memcpy (s.bytes ++ [0])

/-- The array for the message, and how many bytes of it, from its start on, each call of a string
function has written or read. -/
structure Scratch where
  message : Message
  touched : List Nat

/-- What is done with the argument behind `-a`. -/
def copyMessage (m : Scratch) (s : CString) : Scratch :=
  if s.bytes.length > appMessageLen - 1 then
    ⟨strncpy m.message s (appMessageLen - 1), m.touched ++ [appMessageLen - 1]⟩
  else ⟨strcpy m.message s, m.touched ++ [s.bytes.length + 1]⟩

/-- The message is moved into the packet: its length first, then its bytes. -/
def takeMessage (a : AppPayload) (m : Scratch) (behind : List UInt8) : AppPayload × List Nat :=
  let messageLen := UInt8.ofNat (strlen m.message behind)
  ({ a with
      messageLen := messageLen
      message := a.message.memcpy ((m.message.bytes ++ behind).take messageLen.toNat) },
    m.touched ++ [strlen m.message behind + 1, messageLen.toNat])

/-! ## The options -/

/-- Where an option wants a number. -/
def readAddr {σ : Type} (next : Option CString) (s : σ) (set : UInt8 → σ) :
    Except (Stop × σ) σ :=
  match next with
  | none => .error (.missing, s)
  | some value =>
    match value.number? with
    | none => .error (.refused, s)
    | some addr => .ok (set addr)

/-- Where an option wants a message. -/
def readText {σ : Type} (next : Option CString) (s : σ) (set : CString → σ) :
    Except (Stop × σ) σ :=
  match next with
  | none => .error (.missing, s)
  | some value => .ok (set value)

def isSender (arg : CString) : Bool := arg.oneOf ["-s", "--sender"]

def isReceiver (arg : CString) : Bool := arg.oneOf ["-r", "--receiver"]

def isApp (arg : CString) : Bool := arg.oneOf ["--app", "-a"]

def isAppReceiver (arg : CString) : Bool := arg.oneOf ["-ar", "--app-receiver"]

def isAppSender (arg : CString) : Bool := arg.oneOf ["-as", "--app-sender"]

structure Addrs where
  addrFrom : UInt8
  addrTo : UInt8

/-- The locals that the options for the app set. -/
structure AppLocals where
  scratch : Scratch
  appAddrTo : UInt8
  appAddrFrom : UInt8

/-- The body of the first loop of `parse_send_cmd`. -/
def sendAddrs (arg : CString) (next : Option CString) (s : Addrs) :
    Except (Stop × Addrs) Addrs := do
  let s ← if isSender arg then readAddr next s fun a => { s with addrFrom := a } else .ok s
  if isReceiver arg then readAddr next s fun a => { s with addrTo := a } else .ok s

/-- The body of its second loop. -/
def sendOptions (arg : CString) (next : Option CString) (s : AppLocals) :
    Except (Stop × AppLocals) AppLocals := do
  let s ← if isApp arg then
    readText next s fun value => { s with scratch := copyMessage s.scratch value } else .ok s
  let s ← if isAppReceiver arg then readAddr next s fun a => { s with appAddrTo := a } else .ok s
  if isAppSender arg then readAddr next s fun a => { s with appAddrFrom := a } else .ok s

/-- The body of the first loop of `parse_broadcast_cmd`. -/
def broadcastAddr (arg : CString) (next : Option CString) (s : UInt8) :
    Except (Stop × UInt8) UInt8 :=
  if isSender arg then readAddr next s fun a => a else .ok s

/-- The body of its second loop. -/
def broadcastOptions (arg : CString) (next : Option CString) (s : Scratch) :
    Except (Stop × Scratch) Scratch :=
  if isApp arg then readText next s fun value => copyMessage s value else .ok s

/-! ## The commands -/

inductive Ending where
  /-- `NULL` was dereferenced. -/
  | crashed
  | returned (ok : Bool)
  deriving DecidableEq

/-- How a parser ends, what it has assigned to `*cmd` and `*payload`, and what it has done with
the array for the message. -/
structure Outcome where
  ending : Ending
  cmd : Option Request
  payload : Option Payload
  touched : List Nat

def Ending.of : Stop → Ending
  | .missing => .crashed
  | .refused => .returned false

def createAddrPayload (cmd : Request) (arg : Option CString) : Outcome :=
  match arg with
  | none => ⟨.crashed, some cmd, none, []⟩
  | some s =>
    match s.number? with
    | none => ⟨.returned false, some cmd, none, []⟩
    | some addr => ⟨.returned true, some cmd, some (.addr addr), []⟩

variable (g : Garbage) (argv : List CString)

def parseSendCmd : Outcome :=
  match scan sendAddrs argv ⟨noAddr, noAddr⟩ with
  | .error (stop, _) => ⟨Ending.of stop, some .send, none, []⟩
  | .ok addrs =>
    if addrs.addrTo = noAddr ∨ addrs.addrFrom = noAddr then
      ⟨.returned false, some .send, none, []⟩
    else
      let packet := { g.heap with senderAddr := addrs.addrFrom, receiverAddr := addrs.addrTo }
      let finish := fun (app : AppPayload) (touched : List Nat) =>
        let packet := { packet with appPayload := { app with reqType := .known .delivery } }
        (⟨.returned true, some .send, some (.packet { packet with crc := packetCrc packet }),
          touched⟩ : Outcome)
      if argv.length > 6 then
        match scan sendOptions argv ⟨⟨g.message, []⟩, g.appAddrTo, g.appAddrFrom⟩ with
        | .error (stop, s) =>
          ⟨Ending.of stop, some .send, some (.packet packet), s.scratch.touched⟩
        | .ok s =>
          let (app, touched) := takeMessage
            { packet.appPayload with addrFrom := s.appAddrFrom, addrTo := s.appAddrTo } s.scratch
            g.behind
          finish app touched
      else finish { packet.appPayload with addrFrom := 0, addrTo := 0, messageLen := 0 } []

def parseBroadcastCmd (cmd : Request) (appReq : AppRequest) : Outcome :=
  match scan broadcastAddr argv noAddr with
  | .error (stop, _) => ⟨Ending.of stop, some cmd, none, []⟩
  | .ok addrFrom =>
    if addrFrom = noAddr then ⟨.returned false, some cmd, none, []⟩
    else
      let packet := { g.heap with senderAddr := addrFrom }
      let finish := fun (app : AppPayload) (touched : List Nat) =>
        let app := { app with reqType := .known appReq, crc := crc16 app.text }
        (⟨.returned true, some cmd, some (.packet { packet with
          timeToLive := broadcastRadius.toInt8, appPayload := app }), touched⟩ : Outcome)
      if argv.length ≥ 6 then
        match scan broadcastOptions argv ⟨g.message, []⟩ with
        | .error (stop, s) => ⟨Ending.of stop, some cmd, some (.packet packet), s.touched⟩
        | .ok s =>
          let (app, touched) := takeMessage packet.appPayload s g.behind
          finish app touched
      else finish { packet.appPayload with addrFrom := 0, addrTo := 0, messageLen := 0 } []

/-- The loop of `parse_args` over the words, from one of them on. -/
def parseWords : List CString → Outcome
  | [] => ⟨.returned false, none, none, []⟩
  | arg :: rest =>
    if arg.is "send" && argv.length ≥ 6 then parseSendCmd g argv
    else if arg.is "broadcast" && argv.length ≥ 4 then
      parseBroadcastCmd g argv .broadcast .broadcast
    else if arg.is "unicast" && argv.length ≥ 4 then parseBroadcastCmd g argv .unicast .unicast
    else if arg.is "ping" then createAddrPayload .ping rest.head?
    else if arg.is "kill" then createAddrPayload .killNode rest.head?
    else if arg.is "revive" then createAddrPayload .reviveNode rest.head?
    else parseWords rest

/-- `parse_args`, called with both outputs unassigned. -/
def parseArgs : Outcome :=
  if argv.length > 2 then parseWords g argv argv
  else
    match argv with
    | [_, arg] =>
      if arg.is "reset" then ⟨.returned true, some .reset, none, []⟩
      else ⟨.returned true, none, none, []⟩
    | _ => ⟨.returned false, none, none, []⟩

end Client

end MeshNet
