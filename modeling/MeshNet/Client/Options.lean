import MeshNet.Client.Arguments

/-!
# The options of the client's commands

What the loops of `parse_send_cmd` and `parse_broadcast_cmd` come to, told by the values of their
options. The options of one loop exclude each other, so that each of its rounds is that of a table
of options.
-/

namespace MeshNet
open Library

namespace Client

/-! ## Tables of options -/

theorem oneOf_eq_false {arg : CString} {words words' : List String}
    (h : arg.oneOf words = true)
    (hne : (words.all fun w => words'.all fun w' => ascii w != ascii w') = true) :
    arg.oneOf words' = false := by
  obtain ⟨w, hw, his⟩ := List.any_eq_true.mp h
  have hbytes : arg.bytes = ascii w := eq_of_beq his
  apply List.any_eq_false.mpr
  intro w' hw' his'
  have hdiff := List.all_eq_true.mp (List.all_eq_true.mp hne w hw) w' hw'
  exact bne_iff_ne.mp hdiff (hbytes.symm.trans (eq_of_beq his'))

/-- A number among the values, for the option that sets `set`. -/
def addrOptions {σ : Type} (takes : CString → Bool) (set : CString → UInt8 → σ → σ) :
    Options CString σ where
  takes := takes
  parse arg value := value.number?.map (set arg)

def sendAddrsOptions : Options CString Addrs :=
  addrOptions (fun arg => isSender arg || isReceiver arg) fun arg a s =>
    if isSender arg then { s with addrFrom := a } else { s with addrTo := a }

def broadcastAddrOptions : Options CString UInt8 := addrOptions isSender fun _ a _ => a

def sendAppOptions : Options CString AppLocals where
  takes arg := isApp arg || isAppReceiver arg || isAppSender arg
  parse arg value :=
    if isApp arg then some fun s => { s with scratch := copyMessage s.scratch value }
    else value.number?.map fun a s =>
      if isAppReceiver arg then { s with appAddrTo := a } else { s with appAddrFrom := a }

def broadcastAppOptions : Options CString Scratch where
  takes := isApp
  parse _ value := some fun s => copyMessage s value

theorem sendAddrs_eq : sendAddrs = sendAddrsOptions.body := by
  funext arg next s
  have hexcl : isSender arg = true → isReceiver arg = false := fun h =>
    oneOf_eq_false h (by decide)
  by_cases hs : isSender arg = true
  · rcases next with _ | value
    · simp [sendAddrs, Options.body, sendAddrsOptions, addrOptions, readAddr, hs, bind, Except.bind]
    · cases hn : value.number? <;>
        simp [sendAddrs, Options.body, sendAddrsOptions, addrOptions, readAddr, hs, hexcl hs, hn,
          bind, Except.bind]
  · rcases next with _ | value
    · simp [sendAddrs, Options.body, sendAddrsOptions, addrOptions, readAddr, hs, bind, Except.bind]
    · cases hn : value.number? <;>
        simp [sendAddrs, Options.body, sendAddrsOptions, addrOptions, readAddr, hs, hn, bind,
          Except.bind]

theorem broadcastAddr_eq : broadcastAddr = broadcastAddrOptions.body := by
  funext arg next s
  unfold broadcastAddr Options.body
  simp only [broadcastAddrOptions, addrOptions]
  rcases next with _ | value
  · rfl
  · cases hn : value.number? <;> simp [readAddr, hn]

theorem sendOptions_eq : sendOptions = sendAppOptions.body := by
  funext arg next s
  have hreceiver : isApp arg = true → isAppReceiver arg = false := fun h =>
    oneOf_eq_false h (by decide)
  have hsender : isApp arg = true → isAppSender arg = false := fun h =>
    oneOf_eq_false h (by decide)
  have hboth : isAppReceiver arg = true → isAppSender arg = false := fun h =>
    oneOf_eq_false h (by decide)
  by_cases ha : isApp arg = true
  · rcases next with _ | value <;>
      simp [sendOptions, Options.body, sendAppOptions, readText, ha, hreceiver ha, hsender ha, bind,
        Except.bind]
  · by_cases hr : isAppReceiver arg = true
    · rcases next with _ | value
      · simp [sendOptions, Options.body, sendAppOptions, readAddr, ha, hr, bind, Except.bind]
      · cases hn : value.number? <;>
          simp [sendOptions, Options.body, sendAppOptions, readAddr, ha, hr, hboth hr, hn, bind,
            Except.bind]
    · rcases next with _ | value
      · simp [sendOptions, Options.body, sendAppOptions, readAddr, ha, hr, bind, Except.bind]
      · cases hn : value.number? <;>
          simp [sendOptions, Options.body, sendAppOptions, readAddr, ha, hr, hn, bind, Except.bind]

theorem broadcastOptions_eq : broadcastOptions = broadcastAppOptions.body := by
  funext arg next s
  unfold broadcastOptions Options.body
  simp only [broadcastAppOptions]
  cases next <;> rfl

/-! ## Values -/

variable {argv : List CString} {g : Garbage}

/-- Some value of these options is no number. -/
def NoNumber (p : CString → Bool) (argv : List CString) : Prop :=
  ∃ value ∈ values p argv, value.number? = none

/-- One of these options is the last argument. -/
def Dangling (p : CString → Bool) (argv : List CString) : Prop :=
  ∃ last ∈ argv.getLast?, p last = true

/-- No value of these options is the number of a node: there is none, or the last is 255. -/
def Missing (p : CString → Bool) (argv : List CString) : Prop :=
  ∀ last ∈ (values p argv).getLast?, last.number? = some noAddr

/-- The number of the last value that is one. -/
def lastNumber (p : CString → Bool) (argv : List CString) : UInt8 :=
  (values p argv).foldl (fun addr value => value.number?.getD addr) noAddr

theorem lastNumber_eq_noAddr {p : CString → Bool} (h : ¬ NoNumber p argv) :
    lastNumber p argv = noAddr ↔ Missing p argv := by
  unfold lastNumber Missing
  unfold NoNumber at h
  rcases List.eq_nil_or_concat (values p argv) with hnil | ⟨init, last, hlast⟩
  · simp [hnil]
  · have hnumber : last.number? ≠ none := fun hnone => h ⟨last, by simp [hlast], hnone⟩
    obtain ⟨addr, haddr⟩ := Option.ne_none_iff_exists'.mp hnumber
    simp [hlast, haddr]

theorem refused_addrOptions {σ : Type} {takes : CString → Bool} {set : CString → UInt8 → σ → σ} :
    (addrOptions takes set).Refused argv ↔ NoNumber takes argv := by
  constructor
  · rintro ⟨⟨arg, value⟩, hmem, hnone⟩
    obtain ⟨htakes, hzip⟩ := Options.mem_reads.mp hmem
    exact ⟨value, mem_values.mpr ⟨arg, htakes, hzip⟩, Option.map_eq_none_iff.mp hnone⟩
  · rintro ⟨value, hmem, hnone⟩
    obtain ⟨arg, htakes, hzip⟩ := mem_values.mp hmem
    exact ⟨(arg, value), Options.mem_reads.mpr ⟨htakes, hzip⟩, Option.map_eq_none_iff.mpr hnone⟩

def isAddr (arg : CString) : Bool := isSender arg || isReceiver arg

def isAppAddr (arg : CString) : Bool := isAppReceiver arg || isAppSender arg

theorem refused_sendAppOptions : sendAppOptions.Refused argv ↔ NoNumber isAppAddr argv := by
  constructor
  · rintro ⟨⟨arg, value⟩, hmem, hnone⟩
    obtain ⟨htakes, hzip⟩ := Options.mem_reads.mp hmem
    have happ : isApp arg = false := by
      cases h : isApp arg with
      | false => rfl
      | true => simp [sendAppOptions, h] at hnone
    have haddr : isAppAddr arg = true := by simpa [sendAppOptions, happ, isAppAddr] using htakes
    refine ⟨value, mem_values.mpr ⟨arg, haddr, hzip⟩, ?_⟩
    simpa [sendAppOptions, happ] using hnone
  · rintro ⟨value, hmem, hnone⟩
    obtain ⟨arg, haddr, hzip⟩ := mem_values.mp hmem
    have happ : isApp arg = false := by
      rcases Bool.or_eq_true_iff.mp haddr with h | h
      · exact oneOf_eq_false h (by decide)
      · exact oneOf_eq_false h (by decide)
    refine ⟨(arg, value), Options.mem_reads.mpr ⟨?_, hzip⟩, ?_⟩
    · simpa [sendAppOptions, happ, isAppAddr] using haddr
    · simpa [sendAppOptions, happ] using hnone

/-! ## The loops -/

theorem final_sendAddrs :
    sendAddrsOptions.final ⟨noAddr, noAddr⟩ (sendAddrsOptions.reads argv) =
      ⟨lastNumber isSender argv, lastNumber isReceiver argv⟩ := by
  have hfrom : (sendAddrsOptions.final ⟨noAddr, noAddr⟩ (sendAddrsOptions.reads argv)).addrFrom =
      lastNumber isSender argv := by
    apply Options.proj_final Addrs.addrFrom isSender
    · intro arg hs
      simp [sendAddrsOptions, addrOptions, hs]
    · intro arg value s _
      cases hn : value.number? <;> by_cases hs : isSender arg = true <;>
        simp [sendAddrsOptions, addrOptions, hn, hs]
  have hto : (sendAddrsOptions.final ⟨noAddr, noAddr⟩ (sendAddrsOptions.reads argv)).addrTo =
      lastNumber isReceiver argv := by
    apply Options.proj_final Addrs.addrTo isReceiver
    · intro arg hr
      simp [sendAddrsOptions, addrOptions, hr]
    · intro arg value s htakes
      have hother : isReceiver arg = true → isSender arg = false := fun h =>
        oneOf_eq_false h (by decide)
      cases hn : value.number? <;> by_cases hr : isReceiver arg = true <;>
        simp_all [sendAddrsOptions, addrOptions]
  rw [← hfrom, ← hto]

theorem scan_sendAddrs_cases (argv : List CString) :
    (NoNumber isAddr argv ∧
      ∃ s, scan sendAddrs argv ⟨noAddr, noAddr⟩ = .error (.refused, s)) ∨
    (¬ NoNumber isAddr argv ∧ Dangling isAddr argv ∧
      ∃ s, scan sendAddrs argv ⟨noAddr, noAddr⟩ = .error (.missing, s)) ∨
    (¬ NoNumber isAddr argv ∧ ¬ Dangling isAddr argv ∧
      scan sendAddrs argv ⟨noAddr, noAddr⟩ =
        .ok ⟨lastNumber isSender argv, lastNumber isReceiver argv⟩) := by
  have hnumber : sendAddrsOptions.Refused argv ↔ NoNumber isAddr argv := refused_addrOptions
  have hcases := sendAddrsOptions.scan_cases argv ⟨noAddr, noAddr⟩
  rw [final_sendAddrs, hnumber, ← sendAddrs_eq] at hcases
  exact hcases

/-- The array for the message once the values of `-a` are copied to it, one over the other. -/
def copied (m : Message) (texts : List CString) : Scratch := texts.foldl copyMessage ⟨m, []⟩

/-- The options of the second loop of `parse_send_cmd`. -/
def isAppOption (arg : CString) : Bool := isApp arg || isAppReceiver arg || isAppSender arg

theorem final_sendOptions (s : AppLocals) :
    (sendAppOptions.final s (sendAppOptions.reads argv)).scratch =
      (values isApp argv).foldl copyMessage s.scratch := by
  apply Options.proj_final AppLocals.scratch isApp copyMessage
  · intro arg ha
    simp [sendAppOptions, ha]
  · intro arg value s _
    cases hn : value.number? <;> by_cases ha : isApp arg = true <;>
      by_cases hr : isAppReceiver arg = true <;> simp [sendAppOptions, hn, ha, hr]

theorem scan_sendOptions_cases (argv : List CString) (m : Message) (addrTo addrFrom : UInt8) :
    (NoNumber isAppAddr argv ∧
      ∃ t, scan sendOptions argv ⟨⟨m, []⟩, addrTo, addrFrom⟩ = .error (.refused, t)) ∨
    (¬ NoNumber isAppAddr argv ∧ Dangling isAppOption argv ∧
      ∃ t, scan sendOptions argv ⟨⟨m, []⟩, addrTo, addrFrom⟩ = .error (.missing, t)) ∨
    (¬ NoNumber isAppAddr argv ∧ ¬ Dangling isAppOption argv ∧
      ∃ t, scan sendOptions argv ⟨⟨m, []⟩, addrTo, addrFrom⟩ = .ok t ∧
        t.scratch = copied m (values isApp argv)) := by
  have hcases := sendAppOptions.scan_cases argv ⟨⟨m, []⟩, addrTo, addrFrom⟩
  rw [refused_sendAppOptions, ← sendOptions_eq] at hcases
  rcases hcases with hrefused | hmissing | ⟨hnumber, hlast, hok⟩
  · exact .inl hrefused
  · exact .inr (.inl hmissing)
  · exact .inr (.inr ⟨hnumber, hlast, _, hok, final_sendOptions _⟩)

theorem scan_broadcastAddr_cases (argv : List CString) :
    (NoNumber isSender argv ∧ ∃ s, scan broadcastAddr argv noAddr = .error (.refused, s)) ∨
    (¬ NoNumber isSender argv ∧ Dangling isSender argv ∧
      ∃ s, scan broadcastAddr argv noAddr = .error (.missing, s)) ∨
    (¬ NoNumber isSender argv ∧ ¬ Dangling isSender argv ∧
      scan broadcastAddr argv noAddr = .ok (lastNumber isSender argv)) := by
  have hnumber : broadcastAddrOptions.Refused argv ↔ NoNumber isSender argv := refused_addrOptions
  have hfinal : broadcastAddrOptions.final noAddr (broadcastAddrOptions.reads argv) =
      lastNumber isSender argv := by
    apply Options.proj_final id isSender
    · intro arg hs
      exact hs
    · intro arg value s hs
      have hs : isSender arg = true := hs
      cases hn : value.number? <;> simp [broadcastAddrOptions, addrOptions, hn, hs]
  have hcases := broadcastAddrOptions.scan_cases argv noAddr
  rw [hfinal, hnumber, ← broadcastAddr_eq] at hcases
  exact hcases

theorem scan_broadcastOptions_cases (argv : List CString) (m : Message) :
    (Dangling isApp argv ∧ ∃ t, scan broadcastOptions argv ⟨m, []⟩ = .error (.missing, t)) ∨
    (¬ Dangling isApp argv ∧
      scan broadcastOptions argv ⟨m, []⟩ = .ok (copied m (values isApp argv))) := by
  have hfinal : broadcastAppOptions.final ⟨m, []⟩ (broadcastAppOptions.reads argv) =
      copied m (values isApp argv) := by
    apply Options.proj_final id isApp copyMessage
    · intro arg ha
      exact ha
    · intro arg value s ha
      have ha : isApp arg = true := ha
      simp [broadcastAppOptions, ha]
  have hcases := broadcastAppOptions.scan_cases argv ⟨m, []⟩
  rw [hfinal, ← broadcastOptions_eq] at hcases
  rcases hcases with ⟨⟨r, -, hnone⟩, -⟩ | ⟨-, hmissing⟩ | ⟨-, hok⟩
  · cases hnone
  · exact .inl hmissing
  · exact .inr hok

end Client

end MeshNet
