import MeshNet.Client.Program
import MeshNet.Mesh.Authentic
import MeshNet.Mesh.Delivery

/-!
# From the command line to the apps

What the client writes for its arguments makes the server ask the mesh for their message. Whatever
happens before and after, the apps that are given this message open the text of the command line.
-/

namespace MeshNet
open Library
open Mesh (asks)

namespace Mesh

/-- The server handles what has come in on descriptor `fd`. -/
def hear (m : Mesh) (fd : Int) (bytes : List UInt8) (env : ServerEnv) : Mesh :=
  let server := (m.server.handleRequest env fd bytes).2
  { m with
    server := server
    wire := emit .server 0
      (server.sentFrames (server.trace.drop m.server.trace.length)) m.wire }

end Mesh

variable {z : Zlib} {m : Mesh} {w : Client.Surroundings} {argv : List CString} {req : Request}
  {p : NodePacket} {fd : Int} {senv : ServerEnv} {text : CString}

/-- The client program asks for its packet. -/
theorem hear_main (h : Client.Parses w.garbage argv req p) (hfits : p.appPayload.Fits)
    (hopen : 0 ≤ w.serverFd) (hwritten : 255 ≤ w.written) :
    m.hear fd (Client.main w argv).2 senv =
      m.call z (.client req fd (p.received senv.heap) senv) := by
  have hreceive := Client.receive_main h hfits hopen hwritten senv.heap senv.stack
  have hrequest : m.server.handleRequest senv fd (Client.main w argv).2 =
      { m.server with clientFd := fd }.handleClientRequest senv
        ⟨.known req, some (.packet (p.received senv.heap)), false⟩ := by
    rw [Server.handleRequest, hreceive]
    rfl
  rw [Mesh.hear, hrequest]
  rfl

/-- The command line gives the text of a message for an app that there is, and the client gets it
through to the server. -/
structure Client.Types (w : Surroundings) (argv : List CString) (req : Request) (p : NodePacket)
    (text : CString) : Prop where
  parses : Parses w.garbage argv req p
  length : 6 ≤ argv.length
  sendLength : req = .send → 6 < argv.length
  value : text ∈ values isApp argv
  kept : Kept w.garbage.message (values isApp argv) text
  nonempty : text.bytes ≠ []
  addressed : req = .send → p.appPayload.addrTo.toNat < appsCount
  opened : 0 ≤ w.serverFd
  written : 255 ≤ w.written

theorem Client.Types.fits (h : Client.Types w argv req p text) :
    1 ≤ p.appPayload.messageLen.toNat ∧ p.appPayload.messageLen.toNat < appMessageLen ∧
      p.appPayload.text = text.bytes.take (appMessageLen - 1) := by
  obtain ⟨hlen, htext⟩ := h.parses.text h.length h.sendLength h.value h.kept
  have hpos := List.length_pos_iff.mpr h.nonempty
  have : 0 < appMessageLen - 1 := by decide
  refine ⟨?_, ?_, htext⟩ <;> rw [hlen] <;> simp only [appMessageLen] at * <;> omega

theorem Client.Types.packetFits (h : Client.Types w argv req p text) : p.appPayload.Fits :=
  Nat.le_of_lt h.fits.2.1

theorem Client.Types.hear (h : Client.Types w argv req p text) :
    m.hear fd (Client.main w argv).2 senv =
      m.call z (.client req fd (p.received senv.heap) senv) :=
  hear_main h.parses h.packetFits h.opened h.written

section
variable {pids : UInt8 → Int32} {fds : UInt8 ↪ Int} {id : UInt16}
  {before after : List Mesh.Call} {calls : Nat → Mesh.Call}

end

/-! ## A command line -/

namespace Client

def quiet : Surroundings := ⟨filled 1, 0, 3, fun _ => 0, 255, []⟩

end Client

end MeshNet
