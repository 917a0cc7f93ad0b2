import MeshNet.Server.Serving

/-!
# Who gets a result

The result of a message goes to the descriptor that its number is stored with. Nothing takes a
descriptor out of the table when its connection is closed, so that the number may by then stand
for another connection. As long as no descriptor is closed while the table holds it, every
result reaches the client that asked for it.
-/

namespace MeshNet
open Library

/-- What the operating system has given. -/
def ServerEnv.Gives (env : ServerEnv) : ServerEvent → Prop
  | .connect port fd => ∃ n, fd = env.connect n port
  | _ => True

/-- The trace grows by what the process does. -/
def ServerTrace.Grows (env : ServerEnv) (tr tr' : ServerTrace) : Prop :=
  ∃ es, tr' = tr ++ es ∧ ∀ e ∈ es, env.Gives e

namespace ServerTrace

variable {env : ServerEnv} {tr tr' tr'' : ServerTrace}

theorem Grows.refl : Grows env tr tr := ⟨[], by simp, by simp⟩

theorem Grows.trans (h : Grows env tr tr') (h' : Grows env tr' tr'') : Grows env tr tr'' := by
  obtain ⟨es, rfl, hes⟩ := h
  obtain ⟨es', rfl, hes'⟩ := h'
  exact ⟨es ++ es', List.append_assoc .., fun e he =>
    (List.mem_append.mp he).elim (hes e) (hes' e)⟩

theorem Grows.push {e : ServerEvent} (h : Grows env tr tr') (he : env.Gives e) :
    Grows env tr (tr' ++ [e]) :=
  h.trans ⟨[e], rfl, by simpa using he⟩

end ServerTrace

namespace Server
open ServerTrace

variable {env : ServerEnv} {tr tr' : ServerTrace} {clientFd fd : Int} {bytes : List UInt8}
  {children : List Child} {addr : UInt8}

/-! ## What the handlers do to the trace -/

theorem grows_ioWriteAll (h : Grows env tr tr') : Grows env tr (ioWriteAll env tr' fd bytes).2 :=
  h.push trivial

theorem grows_handlePing : Grows env tr (handlePing env tr children clientFd addr).2 := by
  unfold handlePing
  dsimp only
  split
  · exact .refl
  · split_ifs
    · exact grows_ioWriteAll .refl
    · exact grows_ioWriteAll (grows_ioWriteAll .refl)
    · exact grows_ioWriteAll (grows_ioWriteAll .refl)
    · exact grows_ioWriteAll (grows_ioWriteAll .refl)

theorem grows_killNode : Grows env tr (killNode tr children addr).2.2 := by
  induction children with
  | nil => exact .refl
  | cons child rest ih =>
    rw [killNode]
    split
    · exact ⟨_, rfl, by simp [ServerEnv.Gives]⟩
    · exact ih

theorem grows_sendToNodes (h : Grows env tr tr') :
    Grows env tr (sendToNodes env addr bytes tr' children).2 := by
  induction children generalizing tr' with
  | nil => exact h
  | cons child rest ih =>
    rw [sendToNodes]
    dsimp only
    split_ifs
    · exact grows_ioWriteAll h
    · exact ih (grows_ioWriteAll h)
    · exact ih h

theorem grows_handleRevive {res : Bool} (h : Grows env tr tr') :
    Grows env tr (handleRevive env addr clientFd res tr' children).2.2 := by
  induction children generalizing tr' res with
  | nil => exact h
  | cons child rest ih =>
    rw [handleRevive]
    dsimp only
    split
    · refine ih (grows_ioWriteAll ?_)
      split
      · exact h.push trivial
      · exact h
    · exact ih h

theorem grows_handleUpdateChild {update : NodeUpdate} :
    Grows env tr (handleUpdateChild env tr update children).2 := by
  induction children with
  | nil => exact .refl
  | cons child rest ih =>
    rw [handleUpdateChild]
    split
    · exact Grows.refl.push ⟨_, rfl⟩
    · exact ih

theorem grows_handleNotify {notify : Notify} :
    Grows env tr (handleNotify env tr clientFd notify).2 := by
  unfold handleNotify
  split
  · split
    · exact grows_ioWriteAll .refl
    · exact .refl
  · split
    · exact grows_ioWriteAll .refl
    · exact .refl
  · exact .refl

/-! ## What the handling of a request does to the table -/

/-- The message that a client sends is put into the table under the next number. -/
structure Registers (s s' : Server) (fd : Int) : Prop where
  clients : s'.clients = s.clients.setClient s.appMsgId fd
  appMsgId : s'.appMsgId = s.appMsgId + 1

variable {s : Server} {incoming : Incoming}

theorem listenerHandle_cases (env : ServerEnv) (s : Server) (incoming : Incoming) (fd : Int)
    (hreset : ¬ (incoming.sender = .known .client ∧ incoming.parsed.req = .known .reset)) :
    Grows env s.trace (s.listenerHandle env incoming fd).2.trace ∧
      (incoming.message?.isSome = true ∧ s.Registers (s.listenerHandle env incoming fd).2 fd ∨
        incoming.message? = none ∧
          (s.listenerHandle env incoming fd).2.appMsgId = s.appMsgId ∧
          (s.listenerHandle env incoming fd).2.clients.Within s.clients) := by
  unfold listenerHandle
  split
  · rename_i hsender
    unfold handleClientRequest Incoming.message?
    rw [hsender] at hreset ⊢
    split
    · rename_i hreq hp
      rw [hreq, hp]
      exact ⟨grows_sendToNodes .refl, .inl ⟨rfl, rfl, rfl⟩⟩
    · rename_i hreq hp
      rw [hreq, hp]
      exact ⟨grows_handlePing, .inr ⟨rfl, rfl, .refl⟩⟩
    · rename_i hreq hp
      rw [hreq, hp]
      exact ⟨grows_ioWriteAll grows_killNode, .inr ⟨rfl, rfl, .refl⟩⟩
    · rename_i hreq
      exact absurd ⟨rfl, hreq⟩ hreset
    · rename_i hreq hp
      rw [hreq, hp]
      exact ⟨grows_handleRevive .refl, .inr ⟨rfl, rfl, .refl⟩⟩
    · rename_i hreq hp
      rw [hreq, hp]
      exact ⟨grows_sendToNodes .refl, .inl ⟨rfl, rfl, rfl⟩⟩
    · rename_i hreq hp
      rw [hreq, hp]
      exact ⟨grows_sendToNodes .refl, .inl ⟨rfl, rfl, rfl⟩⟩
    · refine ⟨.refl, .inr ⟨?_, rfl, .refl⟩⟩
      split <;> simp_all
  · rename_i hsender
    unfold handleNodeRequest Incoming.message?
    rw [hsender]
    split
    · exact ⟨grows_handleUpdateChild, .inr ⟨rfl, rfl, .refl⟩⟩
    · exact ⟨grows_handleNotify, .inr ⟨rfl, rfl, Clients.within_getClientFdById⟩⟩
    · exact ⟨.refl, .inr ⟨rfl, rfl, .refl⟩⟩
  · refine ⟨.refl, .inr ⟨?_, rfl, .refl⟩⟩
    unfold Incoming.message?
    split <;> simp_all

theorem handleRequest_cases (s : Server) (fd : Int) (x : Polled)
    (hreset : ∀ incoming ∈ x.incoming?,
      ¬ (incoming.sender = .known .client ∧ incoming.parsed.req = .known .reset)) :
    Grows x.env s.trace (s.handleRequest x.env fd x.bytes).2.trace ∧
      ((x.incoming?.bind Incoming.message?).isSome = true ∧
          s.Registers (s.handleRequest x.env fd x.bytes).2 fd ∨
        (x.incoming?.bind Incoming.message?).isSome = false ∧
          (s.handleRequest x.env fd x.bytes).2.appMsgId = s.appMsgId ∧
          (s.handleRequest x.env fd x.bytes).2.clients.Within s.clients) := by
  unfold handleRequest
  cases hx : receive x.env.heap x.env.stack x.bytes with
  | none => exact ⟨.refl, .inr ⟨by simp [Polled.incoming?, hx], rfl, .refl⟩⟩
  | some incoming =>
    have hsome : x.incoming? = some incoming := hx
    rw [hsome, Option.bind_some]
    obtain ⟨hgrows, hregisters | ⟨hnone, hsame⟩⟩ :=
      listenerHandle_cases x.env s incoming fd (hreset incoming hsome)
    · exact ⟨hgrows, .inl hregisters⟩
    · exact ⟨hgrows, .inr ⟨by rw [hnone]; rfl, hsame⟩⟩

end Server

namespace Serving

/-! ## What the operating system promises and what must not happen -/

/-- A descriptor is ready only while it is open, and the number of a new connection belongs to
nothing that is open. Clients are not supposed to start the numbering of messages again. -/
structure Possible (w : Serving) (x : Polled) : Prop where
  opened : ∀ fd, w.pfds[x.index]? = some fd → w.conns fd ≠ none
  newfd : x.newfd = -1 ∨ w.conns x.newfd = none
  connect : ∀ n port, x.env.connect n port = -1 ∨ w.conns (x.env.connect n port) = none
  reset : ∀ incoming ∈ x.incoming?,
    ¬ (incoming.sender = .known .client ∧ incoming.parsed.req = .known .reset)

/-- No descriptor is closed while the table of clients holds it. -/
def Spares (w : Serving) (x : Polled) : Prop :=
  ∀ fd, .close fd ∈ w.newEvents (w.pollAt x) → ¬ (w.pollAt x).server.clients.Holds fd

/-- Where the request is the notification about a message, every result it makes the server
write goes to the connection on which that message arrived. -/
def AnswersRequester (w : Serving) (x : Polled) : Prop :=
  ∀ fd notify died, w.pfds[x.index]? = some fd → fd ≠ w.serverFd →
    x.incoming? = some ⟨.known .node, ⟨.known .notify, some (.notify notify), died⟩⟩ →
    ∀ clientFd bytes ok, .write clientFd bytes ok ∈ w.newEvents (w.pollAt x) →
      ∃ k, w.conns clientFd = some k ∧ w.requested notify.appMsgId = some k

/-- The slots in use hold open descriptors of the connections on which the messages arrived. -/
structure Sound (w : Serving) : Prop where
  recent : w.server.clients.Recent w.server.appMsgId
  served : ∀ (i : Nat) (c : Client), w.server.clients.clients[i]? = some c → c.fd ≠ -1 →
    ∃ k, w.conns c.fd = some k ∧ w.requested c.appId = some k

variable {w w' : Serving} {x : Polled} {fd : Int} {es : ServerTrace} {e : ServerEvent}

@[simp] theorem observe_server : (w.observe e).server = w.server := by
  unfold observe
  split <;> first | rfl | (split <;> rfl)

@[simp] theorem observe_requested : (w.observe e).requested = w.requested := by
  unfold observe
  split <;> first | rfl | (split <;> rfl)

@[simp] theorem foldl_observe_server : (es.foldl observe w).server = w.server := by
  induction es generalizing w with
  | nil => rfl
  | cons e es ih => exact ih.trans observe_server

@[simp] theorem foldl_observe_requested : (es.foldl observe w).requested = w.requested := by
  induction es generalizing w with
  | nil => rfl
  | cons e es ih => exact ih.trans observe_requested

/-- A descriptor that is neither closed nor given anew stands for what it stood for. -/
theorem conns_foldl_observe (hclose : .close fd ∉ es)
    (hconnect : ∀ port, .connect port fd ∉ es) : (es.foldl observe w).conns fd = w.conns fd := by
  induction es generalizing w with
  | nil => rfl
  | cons e es ih =>
    refine (ih (fun h => hclose (List.mem_cons_of_mem _ h))
      fun port h => hconnect port (List.mem_cons_of_mem _ h)).trans ?_
    cases e with
    | close fd' =>
      have hne : fd ≠ fd' := by rintro rfl; exact hclose List.mem_cons_self
      exact Function.update_of_ne hne ..
    | connect port fd' =>
      have hne : fd ≠ fd' := by rintro rfl; exact hconnect port List.mem_cons_self
      unfold observe
      dsimp only
      split
      · rfl
      · exact Function.update_of_ne hne ..
    | write => rfl
    | fork => rfl
    | kill => rfl

/-! ## The invariant -/

theorem sound_init (serverFd : Int) (pids : List Int32) : (init serverFd pids).Sound where
  recent := Clients.recent_init
  served _ _ hc hfd :=
    absurd (congrArg Client.fd (List.eq_of_mem_replicate (List.mem_of_getElem? hc))) hfd

theorem sound_addToPfds (hnew : w.conns fd = none) (h : w.Sound) : (w.addToPfds fd).Sound where
  recent := h.recent
  served i c hc hfd := by
    obtain ⟨k, hk, hrequested⟩ := h.served i c hc hfd
    have hne : c.fd ≠ fd := by
      rintro rfl
      rw [hnew] at hk
      cases hk
    exact ⟨k, (Function.update_of_ne hne ..).trans hk, hrequested⟩

/-- The table after a request is sound where the descriptors it holds stand for what they stood
for before. -/
theorem sound_handled (hposs : w.Possible x) (hopen : w.conns fd ≠ none) (h : w.Sound)
    (hserver : w'.server.clients = (w.server.handleRequest x.env fd x.bytes).2.clients ∧
      w'.server.appMsgId = (w.server.handleRequest x.env fd x.bytes).2.appMsgId)
    (hrequested : w'.requested = (w.handled fd x).2.requested)
    (hconns : ∀ f, f ≠ -1 → w'.server.clients.Holds f → w.conns f ≠ none →
      w'.conns f = w.conns f) : w'.Sound := by
  obtain ⟨-, ⟨hmessage, hclients, hid⟩ | ⟨hmessage, hid, hclients⟩⟩ :=
    w.server.handleRequest_cases fd x hposs.reset
  · rw [hid, hclients] at hserver
    have hrequested' :
        w'.requested = Function.update w.requested w.server.appMsgId (w.conns fd) := by
      rw [hrequested, handled, foldl_observe_requested]
      exact if_pos hmessage
    refine ⟨by rw [hserver.1, hserver.2]; exact Clients.recent_setClient h.recent,
      fun i c hc hfd => ?_⟩
    have hheld : w'.server.clients.Holds c.fd := ⟨c, List.mem_of_getElem? hc, rfl⟩
    rw [hserver.1, Clients.getElem?_setClient] at hc
    split at hc
    · cases hc
      obtain ⟨k, hk⟩ := Option.ne_none_iff_exists'.mp hopen
      exact ⟨k, (hconns fd hfd hheld hopen).trans hk, by rw [hrequested']; simpa using hk⟩
    · rename_i hnext
      obtain ⟨k, hk, hold⟩ := h.served i c hc hfd
      have hne := h.recent.ne_of_ne_next hc hfd hnext
      refine ⟨k, (hconns c.fd hfd hheld (by simp [hk])).trans hk, ?_⟩
      rw [hrequested', Function.update_of_ne hne, hold]
  · rw [hid] at hserver
    have hrequested' : w'.requested = w.requested := by
      rw [hrequested, handled, foldl_observe_requested]
      exact if_neg (by simp [hmessage])
    refine ⟨by rw [hserver.1, hserver.2]; exact hclients.recent _ h.recent, fun i c hc hfd => ?_⟩
    have hheld : w'.server.clients.Holds c.fd := ⟨c, List.mem_of_getElem? hc, rfl⟩
    rw [hserver.1] at hc
    obtain ⟨k, hk, hold⟩ := h.served i c (hclients.slots i c hc hfd) hfd
    exact ⟨k, (hconns c.fd hfd hheld (by simp [hk])).trans hk, hrequested' ▸ hold⟩

/-! ## One step -/

theorem newEvents_handled (fd : Int) (hposs : w.Possible x) :
    (w.handled fd x).2.server.trace = w.server.trace ++ w.newEvents (w.handled fd x).2 ∧
      ∀ e ∈ w.newEvents (w.handled fd x).2, x.env.Gives e := by
  obtain ⟨⟨es, htrace, hgives⟩, -⟩ := w.server.handleRequest_cases fd x hposs.reset
  have hserver : (w.handled fd x).2.server.trace = w.server.trace ++ es := by
    rw [handled, foldl_observe_server, htrace]
  rw [newEvents, hserver, List.drop_left]
  exact ⟨rfl, hgives⟩

/-- A descriptor that is open and is not closed stands for what it stood for. -/
theorem conns_handled {f : Int} (hposs : w.Possible x) (hf : f ≠ -1) (hopen : w.conns f ≠ none)
    (hclose : .close f ∉ w.newEvents (w.handled fd x).2) :
    (w.handled fd x).2.conns f = w.conns f := by
  have hgives := (newEvents_handled fd hposs).2
  simp only [newEvents, handled, foldl_observe_server] at hclose hgives ⊢
  refine conns_foldl_observe hclose fun port hconnect => ?_
  obtain ⟨k, rfl⟩ := hgives _ hconnect
  exact (hposs.connect k port).elim hf hopen

theorem sound_pollAt (hposs : w.Possible x) (hspares : w.Spares x) (h : w.Sound) :
    (w.pollAt x).Sound := by
  unfold Spares at hspares
  cases hfd : w.pfds[x.index]? with
  | none => simpa only [pollAt, hfd] using h
  | some fd =>
    have hopen := hposs.opened fd hfd
    have htrace := (newEvents_handled fd hposs).1
    simp only [pollAt, hfd] at hspares ⊢
    by_cases hlisten : fd = w.serverFd
    · rw [if_pos hlisten]
      split
      · exact h
      · exact sound_addToPfds (hposs.newfd.resolve_left ‹_›) h
    · rw [if_neg hlisten] at hspares ⊢
      split at hspares
      · rename_i hok
        rw [if_pos hok]
        refine sound_handled hposs hopen h ?_ rfl fun f hf hheld hwas => ?_
        · rw [handled, foldl_observe_server]
          exact ⟨rfl, rfl⟩
        · exact conns_handled hposs hf hwas fun hclose => hspares f hclose hheld
      · rename_i hok
        rw [if_neg hok]
        have hevents : w.newEvents ((w.handled fd x).2.closeAt x.index fd) =
            w.newEvents (w.handled fd x).2 ++ [.close fd] := by
          rw [newEvents, closeAt, observe_server, htrace, List.append_assoc, List.drop_left]
        rw [hevents] at hspares
        refine sound_handled hposs hopen h ?_ ?_ fun f hf hheld hwas => ?_
        · rw [closeAt, observe_server, handled, foldl_observe_server]
          exact ⟨rfl, rfl⟩
        · rw [closeAt, observe_requested]
        · have hne : f ≠ fd := by
            rintro rfl
            exact hspares f (List.mem_append_right _ List.mem_cons_self) hheld
          refine (Function.update_of_ne hne ..).trans (conns_handled hposs hf hwas fun hclose => ?_)
          exact hspares f (List.mem_append_left _ hclose) hheld

/-- A notification makes the server write at most to the descriptor it has looked up. -/
theorem handleNotify_trace (env : ServerEnv) (tr : ServerTrace) (clientFd : Int) (notify : Notify) :
    ∃ es, (Server.handleNotify env tr clientFd notify).2 = tr ++ es ∧
      ∀ e ∈ es, 0 < clientFd ∧ ∃ bytes ok, e = .write clientFd bytes ok := by
  unfold Server.handleNotify
  split
  · split
    · exact ⟨_, rfl, fun e he => ⟨‹_›, _, _, List.mem_singleton.mp he⟩⟩
    · exact ⟨[], by simp, by simp⟩
  · split
    · exact ⟨_, rfl, fun e he => ⟨‹_›, _, _, List.mem_singleton.mp he⟩⟩
    · exact ⟨[], by simp, by simp⟩
  · exact ⟨[], by simp, by simp⟩

/-- In a sound state a result goes to where it belongs. -/
theorem answersRequester_of_sound (h : w.Sound) : w.AnswersRequester x := by
  intro fd notify died hfd hlisten hincoming clientFd bytes ok hwrite
  have hreceive : receive x.env.heap x.env.stack x.bytes =
      some ⟨.known .node, ⟨.known .notify, some (.notify notify), died⟩⟩ := hincoming
  let found := w.server.clients.getClientFdById notify.appMsgId
  obtain ⟨es, htrace, hes⟩ := handleNotify_trace x.env w.server.trace found.1 notify
  have hhandled : (w.handled fd x).2.server.trace = w.server.trace ++ es := by
    rw [handled, foldl_observe_server]
    simp only [Server.handleRequest, hreceive]
    exact htrace
  have hmem : .write clientFd bytes ok ∈ es := by
    simp only [pollAt, hfd, if_neg hlisten, newEvents] at hwrite
    split at hwrite
    · rwa [hhandled, List.drop_left] at hwrite
    · rw [closeAt, observe_server] at hwrite
      simpa [hhandled, List.append_assoc] using hwrite
  obtain ⟨hpos, bytes', ok', heq⟩ := hes _ hmem
  obtain ⟨rfl, -⟩ := ServerEvent.write.inj heq
  obtain ⟨i, c, hc, hid, hfound⟩ | hfound := w.server.clients.getClientFdById_cases notify.appMsgId
  · have hslot : found.1 = c.fd := congrArg Prod.fst hfound
    rw [hslot] at hpos ⊢
    obtain ⟨k, hk, hrequested⟩ := h.served i c hc (by omega)
    exact ⟨k, hk, hid ▸ hrequested⟩
  · have hnone : found.1 = -1 := congrArg Prod.fst hfound
    omega

/-- While no descriptor is closed that the table holds, every result is written to the
connection on which its message arrived. -/
theorem answersRequester_run (serverFd : Int) (pids : List Int32) (xs : List Polled)
    (hrun : Steps pollAt (fun w x => w.Possible x ∧ w.Spares x) (init serverFd pids) xs)
    (x : Polled) :
    (run pollAt (init serverFd pids) xs).AnswersRequester x :=
  answersRequester_of_sound (hrun.invariant Sound (fun _ _ hx => sound_pollAt hx.1 hx.2)
    (sound_init serverFd pids))

/-! ## A late notification -/

/-- A client and a node connect, and the client sends a message. -/
def requesting : List Polled :=
  [⟨0, 4, .quiet, []⟩, ⟨0, 5, .quiet, []⟩,
    ⟨1, -1, .quiet, [17, 0, 0, 1, 2, 0, 0, 0, 0, 0, 0, 0, 0, 0, 0, 0, 0]⟩]

/-- The client hangs up, and the next one is given its descriptor. It gets the slot of the array
from which the node's entry was moved, for which nothing was reported. -/
def hangingUp : List Polled := [⟨1, -1, .quiet, []⟩, ⟨0, 4, .quiet, []⟩]

/-- The node tells what came of the message. -/
def notifying : Polled := ⟨1, -1, .quiet, [6, 3, 1, 0, 0, 0]⟩

def pids : List Int32 := (List.range nodeCount).map fun i => Int32.ofNat (i + 1)

theorem possible_quiet (henv : x.env = .quiet)
    (hopened : ∀ fd ∈ w.pfds[x.index]?, w.conns fd ≠ none)
    (hnewfd : x.newfd = -1 ∨ w.conns x.newfd = none)
    (hreset : ∀ incoming ∈ x.incoming?,
      ¬ (incoming.sender = .known .client ∧ incoming.parsed.req = .known .reset)) :
    w.Possible x :=
  ⟨hopened, hnewfd, by rw [henv]; exact fun _ _ => .inl rfl, hreset⟩

theorem spares_of_nil (h : w.newEvents (w.pollAt x) = []) : w.Spares x := by
  intro fd hclose
  rw [h] at hclose
  cases hclose

theorem possible_requesting : Steps pollAt Possible (init 3 pids) requesting := by
  refine ⟨possible_quiet rfl ?_ ?_ ?_, possible_quiet rfl ?_ ?_ ?_, possible_quiet rfl ?_ ?_ ?_,
    trivial⟩ <;> decide +kernel

theorem possible_hangingUp :
    Steps pollAt Possible (run pollAt (init 3 pids) requesting) hangingUp := by
  refine ⟨possible_quiet rfl ?_ ?_ ?_, possible_quiet rfl ?_ ?_ ?_, trivial⟩ <;> decide +kernel

theorem answersRequester_run_requesting :
    (run pollAt (init 3 pids) requesting).AnswersRequester notifying :=
  answersRequester_run 3 pids requesting
    (by
      obtain ⟨haccept, haccept', hsend, -⟩ := possible_requesting
      refine ⟨⟨haccept, spares_of_nil ?_⟩, ⟨haccept', spares_of_nil ?_⟩,
        ⟨hsend, spares_of_nil ?_⟩, trivial⟩ <;> decide +kernel) _

/-- The result of the first client's message is written to the second client. -/
theorem answersRequester_reused :
    ¬ ∀ (serverFd : Int) (pids : List Int32) (xs : List Polled) (x : Polled),
      Steps pollAt Possible (init serverFd pids) xs →
        (run pollAt (init serverFd pids) xs).Possible x →
          (run pollAt (init serverFd pids) xs).AnswersRequester x := by
  intro hclaim
  have hposs : Steps pollAt Possible (init 3 pids) (requesting ++ hangingUp) :=
    steps_append.mpr ⟨possible_requesting, possible_hangingUp⟩
  have hlast : (run pollAt (init 3 pids) (requesting ++ hangingUp)).Possible notifying := by
    refine possible_quiet rfl ?_ ?_ ?_ <;> decide +kernel
  obtain ⟨k, hconns, hrequested⟩ := hclaim 3 pids _ notifying hposs hlast 5 ⟨.known .gotMessage, 0⟩
    false (by decide +kernel) (by decide +kernel) (by decide +kernel) 4 [0] true (by decide +kernel)
  have hconns' : (run pollAt (init 3 pids) (requesting ++ hangingUp)).conns 4 = some 3 := by
    decide +kernel
  have hrequested' : (run pollAt (init 3 pids) (requesting ++ hangingUp)).requested 0 = some 1 := by
    decide +kernel
  rw [hconns'] at hconns
  rw [hrequested', ← hconns] at hrequested
  exact absurd hrequested (by decide)

end Serving

end MeshNet
