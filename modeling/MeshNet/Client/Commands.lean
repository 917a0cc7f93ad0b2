import MeshNet.Client.Message

/-!
# How the commands of the client end

A command is refused, or it crashes at an option that is the last argument, or it leaves a packet.
From this it is read off when the text of a message is clipped as it should be.
-/

namespace MeshNet
open Library

namespace Client

variable {g : Garbage} {argv : List CString} {o : Outcome} {m : Message} {addrTo addrFrom : UInt8}
  {stop : Stop}

/-- `parse_send_cmd` returns `false`. -/
def SendRefused (argv : List CString) : Prop :=
  NoNumber isAddr argv ∨
    ¬ Dangling isAddr argv ∧ (Missing isReceiver argv ∨ Missing isSender argv ∨
      6 < argv.length ∧ NoNumber isAppAddr argv)

/-- `parse_broadcast_cmd` returns `false`. -/
def BroadcastRefused (argv : List CString) : Prop :=
  NoNumber isSender argv ∨ ¬ Dangling isSender argv ∧ Missing isSender argv

/-- The array was not read or written outside its bounds. -/
def InBounds (o : Outcome) : Prop := ∀ n ∈ o.touched, n ≤ appMessageLen

/-- The three ends of a command. -/
inductive Ends (o : Outcome) (refused result : Prop) : Prop where
  | refused (h : refused) (ending : o.ending = .returned false) (bounds : InBounds o)
  | crashed (h : ¬ refused) (ending : o.ending = .crashed) (bounds : InBounds o)
  | done (h : ¬ refused) (ending : o.ending = .returned true) (result : result)

theorem touched_of_error {t : AppLocals}
    (h : scan sendOptions argv ⟨⟨m, []⟩, addrTo, addrFrom⟩ = .error (stop, t)) :
    ∀ n ∈ t.scratch.touched, n ≤ appMessageLen := by
  rw [sendOptions_eq] at h
  apply Options.scan_invariant (fun s : AppLocals => ∀ n ∈ s.scratch.touched, n ≤ appMessageLen)
    _ _ h
  · intro arg value f s hparse hs
    simp only [sendAppOptions] at hparse
    split_ifs at hparse with happ hreceiver
    · cases hparse
      exact touched_copyMessage hs
    · obtain ⟨a, -, rfl⟩ := Option.map_eq_some_iff.mp hparse
      exact hs
    · obtain ⟨a, -, rfl⟩ := Option.map_eq_some_iff.mp hparse
      exact hs
  · intro n hn
    cases hn

theorem touched_of_broadcast_error {t : Scratch}
    (h : scan broadcastOptions argv ⟨m, []⟩ = .error (stop, t)) :
    ∀ n ∈ t.touched, n ≤ appMessageLen := by
  rw [broadcastOptions_eq] at h
  apply Options.scan_invariant (fun s : Scratch => ∀ n ∈ s.touched, n ≤ appMessageLen) _ _ h
  · intro arg value f s hparse hs
    cases hparse
    exact touched_copyMessage hs
  · exact nofun

theorem NoNumber.mono {p q : CString → Bool} (hpq : ∀ arg, p arg = true → q arg = true)
    (h : NoNumber p argv) : NoNumber q argv := by
  obtain ⟨value, hvalue, hnone⟩ := h
  obtain ⟨arg, harg, hmem⟩ := mem_values.mp hvalue
  exact ⟨value, mem_values.mpr ⟨arg, hpq arg harg, hmem⟩, hnone⟩

theorem parseSendCmd_ends (g : Garbage) (argv : List CString) :
    Ends (parseSendCmd g argv) (SendRefused argv)
      ((∃ p, (parseSendCmd g argv).payload = some (.packet p) ∧
          p.localSenderAddr = g.heap.localSenderAddr) ∧
        (6 < argv.length →
          FromArray (parseSendCmd g argv) (copied g.message (values isApp argv)) g.behind)) := by
  unfold parseSendCmd
  rcases scan_sendAddrs_cases argv with ⟨hnumber, s, hs⟩ | ⟨hnumber, hlast, s, hs⟩ |
    ⟨hnumber, hlast, hs⟩
  · rw [hs]
    exact .refused (.inl hnumber) rfl nofun
  · rw [hs]
    exact .crashed (by simp [SendRefused, hnumber, hlast]) rfl nofun
  · have hmissing : (lastNumber isReceiver argv = noAddr ∨ lastNumber isSender argv = noAddr) ↔
        (Missing isReceiver argv ∨ Missing isSender argv) := by
      apply or_congr
      · apply lastNumber_eq_noAddr
        intro h
        exact hnumber (h.mono fun arg harg => by simp [isAddr, harg])
      · apply lastNumber_eq_noAddr
        intro h
        exact hnumber (h.mono fun arg harg => by simp [isAddr, harg])
    rw [hs]
    dsimp only
    by_cases hnone : Missing isReceiver argv ∨ Missing isSender argv
    · rw [if_pos (hmissing.mpr hnone)]
      exact .refused (.inr ⟨hlast, by tauto⟩) rfl nofun
    · rw [if_neg (mt hmissing.mp hnone)]
      by_cases hlen : 6 < argv.length
      · rw [if_pos hlen]
        rcases scan_sendOptions_cases argv g.message g.appAddrTo g.appAddrFrom with
          ⟨happ, t, ht⟩ | ⟨happ, -, t, ht⟩ | ⟨happ, -, t, ht, hscratch⟩
        · rw [ht]
          exact .refused (.inr ⟨hlast, .inr (.inr ⟨hlen, happ⟩)⟩) rfl (touched_of_error ht)
        · rw [ht]
          exact .crashed (by simp_all [SendRefused]) rfl (touched_of_error ht)
        · rw [ht, ← hscratch]
          exact .done (by simp_all [SendRefused]) rfl
            ⟨⟨_, rfl, rfl⟩, fun _ => ⟨_, _, rfl, rfl, rfl, rfl⟩⟩
      · rw [if_neg hlen]
        exact .done (by simp [SendRefused]; tauto) rfl ⟨⟨_, rfl, rfl⟩, fun h => absurd h hlen⟩

theorem parseBroadcastCmd_ends (g : Garbage) (argv : List CString) (cmd : Request)
    (appReq : AppRequest) :
    Ends (parseBroadcastCmd g argv cmd appReq) (BroadcastRefused argv)
      ((∃ p, (parseBroadcastCmd g argv cmd appReq).payload = some (.packet p) ∧
          p.localSenderAddr = g.heap.localSenderAddr) ∧
        (6 ≤ argv.length → FromArray (parseBroadcastCmd g argv cmd appReq)
          (copied g.message (values isApp argv)) g.behind)) := by
  unfold parseBroadcastCmd
  rcases scan_broadcastAddr_cases argv with ⟨hnumber, s, hs⟩ | ⟨hnumber, hlast, s, hs⟩ |
    ⟨hnumber, hlast, hs⟩
  · rw [hs]
    exact .refused (.inl hnumber) rfl nofun
  · rw [hs]
    exact .crashed (by simp [BroadcastRefused, hnumber, hlast]) rfl nofun
  · have hmissing := lastNumber_eq_noAddr hnumber
    rw [hs]
    dsimp only
    by_cases hnone : Missing isSender argv
    · rw [if_pos (hmissing.mpr hnone)]
      exact .refused (.inr ⟨hlast, hnone⟩) rfl nofun
    · have hgoes : ¬ BroadcastRefused argv := by simp [BroadcastRefused, hnumber, hnone]
      rw [if_neg (mt hmissing.mp hnone)]
      by_cases hlen : 6 ≤ argv.length
      · rw [if_pos hlen]
        rcases scan_broadcastOptions_cases argv g.message with ⟨-, t, ht⟩ | ⟨-, ht⟩
        · rw [ht]
          exact .crashed hgoes rfl (touched_of_broadcast_error ht)
        · rw [ht]
          exact .done hgoes rfl ⟨⟨_, rfl, rfl⟩, fun _ => ⟨_, _, rfl, rfl, rfl, rfl⟩⟩
      · rw [if_neg hlen]
        exact .done hgoes rfl ⟨⟨_, rfl, rfl⟩, fun h => absurd h hlen⟩

/-! ## The text of a message -/

theorem Ends.result {refused result : Prop} (h : Ends o refused result)
    (hend : o.ending = .returned true) : result := by
  rcases h with ⟨-, hend', -⟩ | ⟨-, hend', -⟩ | ⟨-, -, hresult⟩
  · rw [hend'] at hend
    cases hend
  · rw [hend'] at hend
    cases hend
  · exact hresult

theorem Ends.inBounds {refused result : Prop} (h : Ends o refused result)
    (hend : o.ending ≠ .returned true) : InBounds o := by
  rcases h with ⟨-, -, hbounds⟩ | ⟨-, -, hbounds⟩ | ⟨-, hend', -⟩
  · exact hbounds
  · exact hbounds
  · exact absurd hend' hend

theorem clipped_parseSendCmd {text : CString} (hlen : 6 < argv.length)
    (hend : (parseSendCmd g argv).ending = .returned true) (htext : text ∈ values isApp argv) :
    Clipped text (parseSendCmd g argv) ↔ Kept g.message (values isApp argv) text :=
  clipped_iff_of_fromArray (((parseSendCmd_ends g argv).result hend).2 hlen) htext

theorem clipped_parseBroadcastCmd {cmd : Request} {appReq : AppRequest} {text : CString}
    (hlen : 6 ≤ argv.length) (hend : (parseBroadcastCmd g argv cmd appReq).ending = .returned true)
    (htext : text ∈ values isApp argv) :
    Clipped text (parseBroadcastCmd g argv cmd appReq) ↔
      Kept g.message (values isApp argv) text :=
  clipped_iff_of_fromArray (((parseBroadcastCmd_ends g argv cmd appReq).result hend).2 hlen) htext

/-- Wherever a packet is made, the text behind `-a` is clipped as it should be if and only if it is
the one that was copied last and that one ends within the array; where none is made, the array is
left in order. -/
theorem clipped_iff (g : Garbage) (argv : List CString) :
    (6 < argv.length →
      ((parseSendCmd g argv).ending = .returned true → ∀ text ∈ values isApp argv,
        (Clipped text (parseSendCmd g argv) ↔ Kept g.message (values isApp argv) text)) ∧
      ((parseSendCmd g argv).ending ≠ .returned true → InBounds (parseSendCmd g argv))) ∧
    ∀ cmd appReq, 6 ≤ argv.length →
      ((parseBroadcastCmd g argv cmd appReq).ending = .returned true →
        ∀ text ∈ values isApp argv, (Clipped text (parseBroadcastCmd g argv cmd appReq) ↔
          Kept g.message (values isApp argv) text)) ∧
      ((parseBroadcastCmd g argv cmd appReq).ending ≠ .returned true →
        InBounds (parseBroadcastCmd g argv cmd appReq)) := by
  constructor
  · intro hlen
    constructor
    · intro hend text htext
      exact clipped_parseSendCmd hlen hend htext
    · exact (parseSendCmd_ends g argv).inBounds
  · intro cmd appReq hlen
    constructor
    · intro hend text htext
      exact clipped_parseBroadcastCmd hlen hend htext
    · exact (parseBroadcastCmd_ends g argv cmd appReq).inBounds

/-- A string of the command line. -/
def literal (s : String) (h : 0 ∉ ascii s) : CString := ⟨ascii s, h⟩

/-- Memory whose bytes are all the same. -/
def filled (b : UInt8) : Garbage where
  heap := ⟨b, b, b, 0, ⟨.known .delivery, b, b, 0, 0, .zero, 0⟩, 0⟩
  message := ⟨List.replicate appMessageLen b, List.length_replicate⟩
  behind := []
  appAddrTo := b
  appAddrFrom := b

/-- Node 1 is to send a message to node 2. -/
def sending (text : CString) : List CString :=
  [literal "client" (by decide), literal "send" (by decide), literal "-s" (by decide),
    literal "1" (by decide), literal "-r" (by decide), literal "2" (by decide),
    literal "-a" (by decide), text]

def hi : CString := literal "hi" (by decide)

theorem clipped_iff_sending : Clipped hi (parseSendCmd (filled 1) (sending hi)) := by
  have hsend := (clipped_iff (filled 1) (sending hi)).1 (by decide)
  apply (hsend.1 (by decide) hi (by decide)).mpr
  rintro last ⟨⟩
  exact ⟨rfl, .inl (by decide)⟩

/-- A text with one byte more than fits. -/
def tooLong : CString := ⟨List.replicate 150 120, by simp⟩

/-- Where the array ended in a byte other than zero, the text goes on behind it. -/
theorem clipped_iff_tooLong :
    ¬ ∀ (g : Garbage) (argv : List CString),
      (6 < argv.length → (parseSendCmd g argv).ending = .returned true →
        ∀ text ∈ values isApp argv, Clipped text (parseSendCmd g argv)) ∧
      ∀ cmd appReq, 6 ≤ argv.length →
        (parseBroadcastCmd g argv cmd appReq).ending = .returned true →
        ∀ text ∈ values isApp argv, Clipped text (parseBroadcastCmd g argv cmd appReq) := by
  intro hclaim
  have hend : (parseSendCmd (filled 1) (sending tooLong)).ending = .returned true := by decide
  have htext : tooLong ∈ values isApp (sending tooLong) := by decide
  have hclipped := (hclaim (filled 1) (sending tooLong)).1 (by decide) hend tooLong htext
  obtain ⟨-, hended⟩ := (clipped_parseSendCmd (by decide) hend htext).mp hclipped tooLong rfl
  rcases hended with hshort | hzero | ⟨text, hmem, -⟩
  · exact absurd hshort (by decide +kernel)
  · exact absurd hzero (by decide)
  · cases hmem

end Client

end MeshNet
