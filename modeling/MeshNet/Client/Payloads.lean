import MeshNet.Client.Commands

/-!
# What the client sends for its arguments

When `parse_args` keeps to its arguments and leaves its caller outputs that are made of them: it
reads nothing behind the last argument, and where it succeeds there is a request and, but for a
reset, a payload whose addresses come from the arguments or from a default. A packet of the client
never has all its addresses, so that of the commands that send one only refusals are in order.
-/

namespace MeshNet
open Library

def Payload.layout : Payload → Layout
  | .addr _ => .addr
  | .packet _ => .packet
  | .update _ => .update
  | .notify _ => .notify
  | .contest _ => .contest

/-- The addresses of nodes and apps that a frame takes from the payload. -/
def Payload.addresses : Payload → List UInt8
  | .addr a => [a]
  | .packet p =>
    [p.senderAddr, p.receiverAddr, p.localSenderAddr, p.appPayload.addrFrom, p.appPayload.addrTo]
  | .update u => [u.addr]
  | .notify _ => []
  | .contest c => [c.nodeAddr, c.appPayload.addrFrom, c.appPayload.addrTo]

namespace Client

/-- A parser, for every memory that it may find: it does not dereference `NULL`, and where it
returns `true` it has assigned a request and, but for a reset, a payload of the request's type whose
addresses do not depend on the memory. -/
def HonestRun (run : Garbage → Outcome) : Prop :=
  ∀ g, (run g).ending ≠ .crashed ∧
    ((run g).ending = .returned true → ∃ req, (run g).cmd = some req ∧
      (req ≠ .reset → ∃ p, (run g).payload = some p ∧ req.layout = some p.layout ∧
        ∀ g', ∃ p', (run g').payload = some p' ∧ p'.addresses = p.addresses))

def Honest (argv : List CString) : Prop := HonestRun fun g => parseArgs g argv

/-! ## Commands -/

/-- What the loop of `parse_args` takes a word for. -/
inductive Command where
  | send | broadcast | unicast | ping | kill | revive
  deriving DecidableEq

/-- Some commands are looked for only where there are enough arguments. -/
def command? (argc : Nat) (arg : CString) : Option Command :=
  if arg.is "send" && argc ≥ 6 then some .send
  else if arg.is "broadcast" && argc ≥ 4 then some .broadcast
  else if arg.is "unicast" && argc ≥ 4 then some .unicast
  else if arg.is "ping" then some .ping
  else if arg.is "kill" then some .kill
  else if arg.is "revive" then some .revive
  else none

/-- The first command among the words, and the words behind it. -/
def firstCommand (argc : Nat) : List CString → Option (Command × List CString)
  | [] => none
  | arg :: rest =>
    match command? argc arg with
    | some c => some (c, rest)
    | none => firstCommand argc rest

variable {g : Garbage} {argv rest : List CString} {run : Garbage → Outcome}

def perform (g : Garbage) (argv rest : List CString) : Command → Outcome
  | .send => parseSendCmd g argv
  | .broadcast => parseBroadcastCmd g argv .broadcast .broadcast
  | .unicast => parseBroadcastCmd g argv .unicast .unicast
  | .ping => createAddrPayload .ping rest.head?
  | .kill => createAddrPayload .killNode rest.head?
  | .revive => createAddrPayload .reviveNode rest.head?

theorem parseWords_eq (g : Garbage) (argv words : List CString) :
    parseWords g argv words =
      match firstCommand argv.length words with
      | some (c, rest) => perform g argv rest c
      | none => ⟨.returned false, none, none, []⟩ := by
  induction words with
  | nil => rfl
  | cons arg rest ih =>
    rw [parseWords, firstCommand, command?]
    split_ifs
    · rfl
    · rfl
    · rfl
    · rfl
    · rfl
    · rfl
    · exact ih

/-- The command is refused or, where it wants an address, there is an argument behind it. -/
def Command.Safe (argv rest : List CString) : Command → Prop
  | .send => SendRefused argv
  | .broadcast | .unicast => BroadcastRefused argv
  | .ping | .kill | .revive => rest ≠ []

/-! ## Commands that send an address -/

theorem honestRun_of_refused (h : ∀ g, (run g).ending = .returned false) : HonestRun run := by
  intro g
  rw [h g]
  exact ⟨nofun, nofun⟩

theorem honestRun_createAddrPayload {cmd : Request} (hlayout : cmd.layout = some .addr)
    (rest : List CString) : HonestRun (fun _ => createAddrPayload cmd rest.head?) ↔ rest ≠ [] := by
  cases rest with
  | nil =>
    apply iff_of_false
    · intro h
      exact (h (filled 0)).1 rfl
    · exact fun h => h rfl
  | cons value rest =>
    apply iff_of_true _ (List.cons_ne_nil _ _)
    cases hn : value.number? with
    | none =>
      apply honestRun_of_refused
      intro g
      simp [createAddrPayload, hn]
    | some addr =>
      have hrun : createAddrPayload cmd (value :: rest).head? =
          ⟨.returned true, some cmd, some (.addr addr), []⟩ := by
        simp [createAddrPayload, hn]
      intro g
      rw [hrun]
      exact ⟨nofun, fun _ => ⟨cmd, rfl, fun _ => ⟨_, rfl, hlayout, fun _ => ⟨_, rfl, rfl⟩⟩⟩⟩

/-! ## Commands that send a packet -/

theorem cmd_parseSendCmd (g : Garbage) (argv : List CString) :
    (parseSendCmd g argv).cmd = some .send := by
  unfold parseSendCmd
  split
  · rfl
  · dsimp only
    split_ifs
    · rfl
    · split <;> rfl
    · rfl

theorem cmd_parseBroadcastCmd (g : Garbage) (argv : List CString) (cmd : Request)
    (appReq : AppRequest) : (parseBroadcastCmd g argv cmd appReq).cmd = some cmd := by
  unfold parseBroadcastCmd
  split
  · rfl
  · dsimp only
    split_ifs
    · rfl
    · split <;> rfl
    · rfl

/-- The local sender of a packet is never set, so that a command that leaves one is not honest. -/
theorem honestRun_of_ends {refused : Prop} {extra : Garbage → Prop} {cmd : Request}
    (hcmd : ∀ g, (run g).cmd = some cmd) (hreset : cmd ≠ .reset)
    (h : ∀ g, Ends (run g) refused ((∃ p, (run g).payload = some (.packet p) ∧
      p.localSenderAddr = g.heap.localSenderAddr) ∧ extra g)) :
    HonestRun run ↔ refused := by
  constructor
  · intro hhonest
    by_contra hrefused
    have hdone : ∀ g, (run g).ending = .returned true ∧ ∃ p, (run g).payload = some (.packet p) ∧
        p.localSenderAddr = g.heap.localSenderAddr := by
      intro g
      rcases h g with ⟨hr, -, -⟩ | ⟨-, hend, -⟩ | ⟨-, hend, hpacket, -⟩
      · exact absurd hr hrefused
      · exact absurd hend (hhonest g).1
      · exact ⟨hend, hpacket⟩
    obtain ⟨hend, p, hp, hlocal⟩ := hdone (filled 0)
    obtain ⟨req, hreq, hpayload⟩ := (hhonest (filled 0)).2 hend
    have hsame : req = cmd := Option.some.inj (hreq.symm.trans (hcmd (filled 0)))
    obtain ⟨q, hq, -, hindep⟩ := hpayload (hsame ▸ hreset)
    obtain ⟨q', hq', haddresses⟩ := hindep (filled 1)
    obtain ⟨-, p', hp', hlocal'⟩ := hdone (filled 1)
    cases hq.symm.trans hp
    cases hq'.symm.trans hp'
    have hequal : p'.localSenderAddr = p.localSenderAddr := by
      simp only [Payload.addresses, List.cons.injEq] at haddresses
      exact haddresses.2.2.1
    rw [hlocal, hlocal'] at hequal
    exact absurd hequal (by decide)
  · intro hrefused
    apply honestRun_of_refused
    intro g
    rcases h g with ⟨-, hend, -⟩ | ⟨hr, -, -⟩ | ⟨hr, -, -⟩
    · exact hend
    · exact absurd hrefused hr
    · exact absurd hrefused hr

theorem honestRun_perform (argv rest : List CString) (c : Command) :
    HonestRun (fun g => perform g argv rest c) ↔ c.Safe argv rest := by
  cases c with
  | send =>
    exact honestRun_of_ends (fun g => cmd_parseSendCmd g argv) nofun
      fun g => parseSendCmd_ends g argv
  | broadcast =>
    exact honestRun_of_ends (fun g => cmd_parseBroadcastCmd g argv _ _) nofun
      fun g => parseBroadcastCmd_ends g argv _ _
  | unicast =>
    exact honestRun_of_ends (fun g => cmd_parseBroadcastCmd g argv _ _) nofun
      fun g => parseBroadcastCmd_ends g argv _ _
  | ping => exact honestRun_createAddrPayload rfl rest
  | kill => exact honestRun_createAddrPayload rfl rest
  | revive => exact honestRun_createAddrPayload rfl rest

/-! ## The whole command line -/

/-- There are too few arguments for a command; or a reset is asked for; or the first command among
the words is refused or, where it wants an address, has an argument behind it. -/
def WellUsed (argv : List CString) : Prop :=
  argv.length < 2 ∨ (∃ name word, argv = [name, word] ∧ word.is "reset" = true) ∨
    2 < argv.length ∧
      ∀ c rest, firstCommand argv.length argv = some (c, rest) → c.Safe argv rest

theorem honest_words (hlen : 2 < argv.length) :
    Honest argv ↔ ∀ c rest, firstCommand argv.length argv = some (c, rest) → c.Safe argv rest := by
  have hrun : ∀ g, parseArgs g argv = parseWords g argv argv := fun g => if_pos hlen
  unfold Honest
  simp only [hrun, parseWords_eq]
  cases hfirst : firstCommand argv.length argv with
  | none =>
    apply iff_of_true
    · apply honestRun_of_refused
      exact fun _ => rfl
    · exact nofun
  | some first =>
    obtain ⟨c, rest⟩ := first
    apply (honestRun_perform argv rest c).trans
    constructor
    · rintro hsafe c' rest' ⟨⟩
      exact hsafe
    · intro hsafe
      exact hsafe c rest rfl

/-- Two arguments are all right if they ask for a reset: for any other word the parser succeeds
without a request. -/
theorem honest_pair (name word : CString) : Honest [name, word] ↔ word.is "reset" = true := by
  cases hreset : word.is "reset" with
  | true =>
    have hrun : ∀ g, parseArgs g [name, word] = ⟨.returned true, some .reset, none, []⟩ := by
      intro g
      simp [parseArgs, hreset]
    apply iff_of_true _ rfl
    unfold Honest
    simp only [hrun]
    exact fun g => ⟨nofun, fun _ => ⟨.reset, rfl, fun h => absurd rfl h⟩⟩
  | false =>
    have hrun : ∀ g, parseArgs g [name, word] = ⟨.returned true, none, none, []⟩ := by
      intro g
      simp [parseArgs, hreset]
    apply iff_of_false _ nofun
    unfold Honest
    simp only [hrun]
    intro h
    obtain ⟨req, hreq, -⟩ := (h (filled 0)).2 rfl
    cases hreq

/-- When the arguments are parsed as they should be. -/
theorem honest_iff (argv : List CString) : Honest argv ↔ WellUsed argv := by
  match argv with
  | [] =>
    apply iff_of_true
    · exact honestRun_of_refused fun _ => rfl
    · exact .inl (by decide)
  | [name] =>
    apply iff_of_true
    · exact honestRun_of_refused fun _ => rfl
    · exact .inl Nat.one_lt_two
  | [name, word] =>
    rw [honest_pair]
    constructor
    · intro hreset
      exact .inr (.inl ⟨name, word, rfl, hreset⟩)
    · rintro (hlen | ⟨_, _, ⟨⟩, hreset⟩ | ⟨hlen, -⟩)
      · exact absurd hlen (by simp)
      · exact hreset
      · exact absurd hlen (by simp)
  | name :: word :: arg :: rest =>
    have hlen : 2 < (name :: word :: arg :: rest).length := by simp
    rw [honest_words hlen]
    constructor
    · intro hsafe
      exact .inr (.inr ⟨hlen, hsafe⟩)
    · rintro (hshort | ⟨_, _, hpair, -⟩ | ⟨-, hsafe⟩)
      · exact absurd hshort (by omega)
      · cases hpair
      · exact hsafe

/-- A ping without an address. -/
theorem honest_ping :
    ¬ ∀ argv : List CString, Honest argv := by
  intro hclaim
  have hping := hclaim [literal "client" (by decide), literal "all" (by decide),
    literal "ping" (by decide)]
  exact (hping (filled 0)).1 (by decide)

end Client

end MeshNet
