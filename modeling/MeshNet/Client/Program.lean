import MeshNet.Client.Payloads
import MeshNet.Mesh.Journey

/-!
# The client

The program sends the server one request, waits for one answer and ends with it. What it writes for
a command that carries a message is received by the server as the packet of its arguments.
-/

namespace MeshNet
open Library

namespace Client

/-- What the program finds: memory, its process id, the descriptor of its connection to the server,
how many bytes go out on it before it breaks, and what comes back before the timeout. -/
structure Surroundings where
  garbage : Garbage
  pid : Int32
  serverFd : Int
  stack : Nat → UInt8
  written : Nat
  answer : List UInt8

inductive Exit where
  /-- `NULL` was dereferenced. -/
  | crashed
  /-- `die` was called. -/
  | died
  /-- `req` was read although nothing was assigned to it. -/
  | undefined
  | exited (status : UInt8)
  deriving DecidableEq

/-- The result that is left in `status`: the first byte of the answer, if one came. -/
def statusOf : List UInt8 → UInt8
  | [] => RequestResult.unknown.toByte
  | b :: _ => b

variable (w : Surroundings) (argv : List CString)

/-- How the program ends, and what the server receives from it. -/
def main : Exit × List UInt8 :=
  let o := parseArgs w.garbage argv
  match o.ending, o.cmd with
  | .crashed, _ => (.crashed, [])
  | .returned false, _ => (.exited 1, [])
  | .returned true, none => (.undefined, [])
  | .returned true, some req =>
    if w.serverFd < 0 then (.died, [])
    else
      match formatCreate w.pid req o.payload .client with
      | none => (.crashed, [])
      | some frame =>
        (.exited (statusOf w.answer), (frame.sent w.stack).take w.written)

variable {w argv} {g : Garbage} {req : Request} {p : NodePacket}

/-! ## Packets -/

/-- The arguments make a packet of a command. -/
structure Parses (g : Garbage) (argv : List CString) (req : Request) (p : NodePacket) : Prop where
  ending : (parseArgs g argv).ending = .returned true
  cmd : (parseArgs g argv).cmd = some req
  payload : (parseArgs g argv).payload = some (.packet p)

/-- A packet that is to be sent is from and to the nodes that were given last. -/
theorem packet_parseSendCmd (g : Garbage) (argv : List CString) :
    (parseSendCmd g argv).ending = .returned true → ∀ p,
      (parseSendCmd g argv).payload = some (.packet p) →
        p.senderAddr = lastNumber isSender argv ∧ p.receiverAddr = lastNumber isReceiver argv ∧
          p.appPayload.reqType = .known .delivery := by
  unfold parseSendCmd
  obtain ⟨-, s, hs⟩ | ⟨-, -, s, hs⟩ | ⟨-, -, hs⟩ := scan_sendAddrs_cases argv <;> rw [hs]
  · exact nofun
  · exact nofun
  · dsimp only
    split_ifs
    · exact nofun
    · obtain ⟨-, t, ht⟩ | ⟨-, -, t, ht⟩ | ⟨-, -, t, ht, -⟩ :=
        scan_sendOptions_cases argv g.message g.appAddrTo g.appAddrFrom <;> rw [ht]
      · exact nofun
      · exact nofun
      · rintro - p ⟨⟩
        exact ⟨rfl, rfl, rfl⟩
    · rintro - p ⟨⟩
      exact ⟨rfl, rfl, rfl⟩

theorem packet_parseBroadcastCmd (g : Garbage) (argv : List CString) (cmd : Request)
    (appReq : AppRequest) :
    (parseBroadcastCmd g argv cmd appReq).ending = .returned true → ∀ p,
      (parseBroadcastCmd g argv cmd appReq).payload = some (.packet p) →
        p.senderAddr = lastNumber isSender argv ∧ p.appPayload.reqType = .known appReq := by
  unfold parseBroadcastCmd
  obtain ⟨-, s, hs⟩ | ⟨-, -, s, hs⟩ | ⟨-, -, hs⟩ := scan_broadcastAddr_cases argv <;> rw [hs]
  · exact nofun
  · exact nofun
  · dsimp only
    split_ifs
    · exact nofun
    · obtain ⟨-, t, ht⟩ | ⟨-, ht⟩ := scan_broadcastOptions_cases argv g.message <;> rw [ht]
      · exact nofun
      · rintro - p ⟨⟩
        exact ⟨rfl, rfl⟩
    · rintro - p ⟨⟩
      exact ⟨rfl, rfl⟩

/-- Which command has made the packet. -/
theorem Parses.cases (h : Parses g argv req p) :
    req = .send ∧ parseArgs g argv = parseSendCmd g argv ∨
      req = .broadcast ∧ parseArgs g argv = parseBroadcastCmd g argv .broadcast .broadcast ∨
        req = .unicast ∧ parseArgs g argv = parseBroadcastCmd g argv .unicast .unicast := by
  obtain ⟨hend, hcmd, hpayload⟩ := h
  have hpacket : ∀ (c : Request) (arg : Option CString),
      (createAddrPayload c arg).payload ≠ some (.packet p) := by
    intro c arg
    unfold createAddrPayload
    cases arg with
    | none => exact nofun
    | some s => cases hn : s.number? <;> simp [hn]
  by_cases hlen : 2 < argv.length
  · have hrun : parseArgs g argv = parseWords g argv argv := if_pos hlen
    rw [hrun, parseWords_eq] at hcmd hpayload ⊢
    cases hfirst : firstCommand argv.length argv with
    | none =>
      rw [hfirst] at hcmd
      cases hcmd
    | some first =>
      obtain ⟨c, rest⟩ := first
      rw [hfirst] at hcmd hpayload
      cases c with
      | send => exact .inl ⟨Option.some.inj (hcmd.symm.trans (cmd_parseSendCmd g argv)), rfl⟩
      | broadcast =>
        exact .inr (.inl ⟨Option.some.inj (hcmd.symm.trans (cmd_parseBroadcastCmd ..)), rfl⟩)
      | unicast =>
        exact .inr (.inr ⟨Option.some.inj (hcmd.symm.trans (cmd_parseBroadcastCmd ..)), rfl⟩)
      | ping | kill | revive => exact absurd hpayload (hpacket _ _)
  · have hnone : (parseArgs g argv).payload = none := by
      match argv, hlen with
      | [], _ | [_], _ => rfl
      | [_, arg], _ => cases hreset : arg.is "reset" <;> simp [parseArgs, hreset]
      | _ :: _ :: _ :: _, hlen => simp at hlen
    rw [hnone] at hpayload
    cases hpayload

/-- The packet carries a message for the nodes and apps of its command. -/
theorem Parses.packet (h : Parses g argv req p) :
    req.CarriesMessage ∧ p.senderAddr = lastNumber isSender argv ∧
      (req = .send ∧ p.receiverAddr = lastNumber isReceiver argv ∧
          p.appPayload.reqType = .known .delivery ∨
        req = .broadcast ∧ p.appPayload.reqType = .known .broadcast ∨
        req = .unicast ∧ p.appPayload.reqType = .known .unicast) := by
  obtain ⟨hend, -, hpayload⟩ := id h
  obtain ⟨rfl, hrun⟩ | ⟨rfl, hrun⟩ | ⟨rfl, hrun⟩ := h.cases <;> rw [hrun] at hend hpayload
  · obtain ⟨hsender, hreceiver, htype⟩ := packet_parseSendCmd g argv hend p hpayload
    exact ⟨.inl rfl, hsender, .inl ⟨rfl, hreceiver, htype⟩⟩
  · obtain ⟨hsender, htype⟩ := packet_parseBroadcastCmd g argv _ _ hend p hpayload
    exact ⟨.inr (.inl rfl), hsender, .inr (.inl ⟨rfl, htype⟩)⟩
  · obtain ⟨hsender, htype⟩ := packet_parseBroadcastCmd g argv _ _ hend p hpayload
    exact ⟨.inr (.inr rfl), hsender, .inr (.inr ⟨rfl, htype⟩)⟩

/-- The packet carries the text behind `-a`. -/
theorem Parses.text {text : CString} (h : Parses g argv req p) (hlen : 6 ≤ argv.length)
    (hsend : req = .send → 6 < argv.length)
    (htext : text ∈ values isApp argv) (hkept : Kept g.message (values isApp argv) text) :
    p.appPayload.messageLen.toNat = min text.bytes.length (appMessageLen - 1) ∧
      p.appPayload.text = text.bytes.take (appMessageLen - 1) := by
  have hclipped : Clipped text (parseArgs g argv) := by
    have hend := h.ending
    obtain ⟨hreq, hrun⟩ | ⟨-, hrun⟩ | ⟨-, hrun⟩ := h.cases <;> rw [hrun] at hend ⊢
    · exact (clipped_parseSendCmd (hsend hreq) hend htext).mpr hkept
    · exact (clipped_parseBroadcastCmd hlen hend htext).mpr hkept
    · exact (clipped_parseBroadcastCmd hlen hend htext).mpr hkept
  obtain ⟨⟨q, hq, hmessageLen, htake⟩, -⟩ := hclipped
  cases h.payload.symm.trans hq
  refine ⟨hmessageLen, ?_⟩
  rw [htake, hmessageLen, ← List.take_take]
  exact List.take_of_length_le (List.length_take_le' _ _)

/-- What the program writes is received as its packet. -/
theorem receive_main (h : Parses w.garbage argv req p) (hfits : p.appPayload.Fits)
    (hopen : 0 ≤ w.serverFd) (hwritten : 255 ≤ w.written) (heap : Message) (stack : Nat → UInt8) :
    receive heap stack (main w argv).2 =
      some ⟨.known .client, ⟨.known req, some (.packet (p.received heap)), false⟩⟩ := by
  have hlayout : req.layout = some .packet := h.packet.1.layout
  have hframe : (main w argv).2 = ((createPacket req .client p).sent w.stack).take w.written := by
    simp only [main, h.ending, h.cmd, h.payload, formatCreate_packet .client p hlayout]
    rw [if_neg (Int.not_lt.mpr hopen)]
  have hall : ((createPacket req .client p).sent w.stack).length ≤ w.written := by
    refine Nat.le_trans ?_ hwritten
    have := (createPacket req .client p).len.toNat_lt
    rw [Frame.sent, List.length_take]
    omega
  rw [hframe, List.take_of_length_le hall]
  exact receive_packet hlayout hfits w.stack

end Client

end MeshNet
