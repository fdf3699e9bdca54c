import ServiceBusExtractor.Frame
import ServiceBusExtractor.Interaction.Resources

/-!
# What is open

A run opens clients and receivers of the SDK: the commit and the scan some of their
own, and the loops one after the other, each time the connection fails. What is open
at any time follows from the trace.

## The model

* `Wiring` — the clients that are open, the receivers that were made and those that
  are attached; `wiring h` — what a trace leaves of them.
* `NewHandle` — the SDK does not return what is still open as something new.
* `Meant row pending` — what a receiver of the run may be made for; `StoredDeferral pending` —
  a deferred receive of numbers an earlier run stored.
* `Proper row pending wiring e` — the event suits the row's mode, and what it uses is
  open and of the right entity.
* `Wired row pending clients links h` — these are open after `h`, and all of `h` was
  proper.

## What is proved

How each call moves `Wired`, and that a batch, the commit, the scan and the probe
leave it as it was.

## Honest scope

A close counts whether or not it raises: what was asked to close is not used again.
-/

namespace ServiceBusExtractor

open Interaction

/-- A receiver, with the entity and the mode it was made for. -/
structure Link where
  handle : Handle
  entity : EntityRef
  receiveMode : ReceiveMode
  deriving DecidableEq, Repr

/-- What the SDK has made so far and what of it is open. -/
structure Wiring where
  clients : List Handle := []
  made : List Link := []
  attached : List Link := []

/-- What an event opens and closes. -/
def Wiring.step (w : Wiring) : Event sdk → Wiring
  | .call (.dataClient _) (.ok client) => { w with clients := client :: w.clients }
  | .call (.closeClient client) _ => { w with clients := w.clients.filter (· ≠ client) }
  | .call (.getReceiver _ entity profile) (.ok receiver) =>
    { w with made := ⟨receiver, entity, profile.receiveMode⟩ :: w.made }
  | .call (.enterReceiver receiver) (.ok _) =>
    { w with attached := (w.made.find? fun link => link.handle = receiver).toList ++ w.attached }
  | .call (.closeReceiver receiver) _ => { w with attached := w.attached.filter fun link => link.handle ≠ receiver }
  | _ => w

/-- What a trace leaves open. -/
def wiring (h : Trace sdk) : Wiring := h.foldl Wiring.step {}

@[simp] theorem wiring_concat {h : Trace sdk} {e : Event sdk} : wiring (h ++ [e]) = (wiring h).step e := by
  rw [wiring, List.foldl_append]
  rfl

/-- What the SDK returns as new is not open. -/
def NewHandle (h : Trace sdk) : Event sdk → Prop
  | .call (.dataClient _) (.ok client) => client ∉ (wiring h).clients
  | .call (.getReceiver ..) (.ok receiver) => receiver ∉ (wiring h).attached.map Link.handle
  | _ => True

instance (h : Trace sdk) : DecidablePred (NewHandle h) := by
  refine decidableEvents (fun c => ?_) fun _ => .isTrue trivial
  induction c using Call.casesOn with
  | dataClient retries =>
    rintro (fault | client)
    · exact .isTrue trivial
    · exact inferInstanceAs (Decidable (client ∉ (wiring h).clients))
  | getReceiver client entity profile =>
    rintro (fault | receiver)
    · exact .isTrue trivial
    · exact inferInstanceAs (Decidable (receiver ∉ (wiring h).attached.map Link.handle))
  | _ => exact fun _ => .isTrue trivial

/-- A receiver of the row's entity that takes messages. -/
def rowLink (row : Row) (receiver : Handle) : Link := ⟨receiver, row.entity, row.mode.receiveMode⟩

/-- A receiver of the row's entity that peeks, or locks what it takes. -/
def peekLink (row : Row) (receiver : Handle) : Link := ⟨receiver, row.entity, .peekLock⟩

/-- A receiver that deletes the deferred messages of a stored entity. -/
def commitLink (ref : EntityRef) (receiver : Handle) : Link := ⟨receiver, ref, .receiveAndDelete⟩

/-- What a receiver may be made for: the row's entity, to lock or to take its messages as the mode does,
and a stored entity, to delete what is deferred on it. -/
def Meant (row : Row) (pending : List PendingEntity) (entity : EntityRef) (receiveMode : ReceiveMode) : Prop :=
  entity = row.entity ∧ (receiveMode = .peekLock ∨ receiveMode = row.mode.receiveMode) ∨
    row.mode.isDestructive = true ∧ receiveMode = .receiveAndDelete ∧ ∃ pe ∈ pending, pe.entity = entity

/-- The numbers are of one stored group, and the receiver deletes on the entity they were deferred on. -/
def StoredDeferral (pending : List PendingEntity) (w : Wiring) (receiver : Handle) (seqs : List ℤ) : Prop :=
  ∃ pe ∈ pending, commitLink pe.entity receiver ∈ w.attached ∧ ∃ group ∈ pe.groups, ∀ q ∈ seqs, covers group.ranges q

/-- The event suits the mode of the row, and what it uses is open. -/
def Proper (row : Row) (pending : List PendingEntity) (w : Wiring) : Event sdk → Prop
  | .call (.getReceiver client entity profile) _ => client ∈ w.clients ∧ Meant row pending entity profile.receiveMode
  | .call (.sessionId receiver) _ | .call (.sessionLockedUntil receiver) _ | .call (.renewSessionLock receiver) _ =>
    row.sessions = true ∧ rowLink row receiver ∈ w.attached
  | .call (.peekMessages receiver _ _) _ => peekLink row receiver ∈ w.attached
  | .call (.receiveMessages receiver _ _) _ => row.mode.isDestructive = true ∧ rowLink row receiver ∈ w.attached
  | .call (.receiveDeferredMessages receiver seqs _) _ => row.mode.isDestructive = true ∧
    (StoredDeferral pending w receiver seqs ∨ (row.mode = .deferCommit ∧ rowLink row receiver ∈ w.attached))
  | .call (.completeMessage receiver _) _ => row.mode = .complete ∧ rowLink row receiver ∈ w.attached
  | .call (.deferMessage receiver _) _ => row.mode = .deferCommit ∧ rowLink row receiver ∈ w.attached
  | .call (.abandonMessage receiver _) _ | .call (.renewMessageLock receiver _) _ =>
    row.mode.holdsLocks = true ∧ rowLink row receiver ∈ w.attached
  | .call (.deadLetterMessage receiver _ _ _) _ => row.mode.holdsLocks = true ∧
    row.config.body.unreadableBody = .deadLetter ∧ row.entity.isSubQueue = false ∧ rowLink row receiver ∈ w.attached
  | _ => True

/-- These clients and receivers are open, each once, and all that happened was proper. -/
structure Wired (row : Row) (pending : List PendingEntity) (clients : List Handle) (links : List Link) (h : Trace sdk) :
    Prop where
  allClients : (wiring h).clients.Perm clients
  allLinks : (wiring h).attached.Perm links
  once : clients.Nodup ∧ (links.map Link.handle).Nodup
  proper : Always (fun before e => Proper row pending (wiring before) e) h

/-- The history, where nothing that is open is returned as new. -/
abbrev Issuing : Event sdk → Trace sdk → Trace sdk → Prop := Checked NewHandle

/-- What is open, as an invariant of a program that keeps what it opened in its state. -/
abbrev Holding {W : Type} (row : Row) (pending : List PendingEntity) (clients : W → List Handle) (links : W → List Link)
    (w : W) (h : Trace sdk) : Prop :=
  Wired row pending (clients w) (links w) h

/-- What is open beside a program that keeps nothing open. -/
abbrev Beside {W : Type} (row : Row) (pending : List PendingEntity) (clients : List Handle) (links : List Link) :
    W → Trace sdk → Prop :=
  Holding row pending (fun _ => clients) (fun _ => links)

variable {row : Row} {pending : List PendingEntity} {clients : List Handle} {links : List Link} {W : Type}
  {h h' : Trace sdk}

section Events

variable {client receiver : Handle} {link : Link}

theorem Wired.event (hw : Wired row pending clients links h) {e : Event sdk} (hproper : Proper row pending (wiring h) e)
    (hstep : (wiring h).step e = wiring h) : Wired row pending clients links (h ++ [e]) := by
  refine ⟨?_, ?_, hw.once, always_concat.mpr ⟨hw.proper, hproper⟩⟩
  · rw [wiring_concat, hstep]
    exact hw.allClients
  · rw [wiring_concat, hstep]
    exact hw.allLinks

theorem Wired.mem (hw : Wired row pending clients links h) (hlink : link ∈ links) : link ∈ (wiring h).attached :=
  hw.allLinks.mem_iff.mpr hlink

theorem Wired.permute {clients' : List Handle} {links' : List Link} (hw : Wired row pending clients links h)
    (hclients : clients.Perm clients') (hlinks : links.Perm links') : Wired row pending clients' links' h :=
  ⟨hw.allClients.trans hclients, hw.allLinks.trans hlinks,
    ⟨hclients.nodup_iff.mp hw.once.1, (hlinks.map Link.handle).nodup_iff.mp hw.once.2⟩, hw.proper⟩

/-- A client is open from the call that returns it on. -/
theorem Wired.opened {retries : Bool} (hw : Wired row pending clients links h)
    (hnew : NewHandle h (.call (.dataClient retries) (.ok client))) :
    Wired row pending (client :: clients) links (h ++ [.call (.dataClient retries) (.ok client)]) := by
  refine ⟨?_, ?_, ⟨List.nodup_cons.mpr ⟨?_, hw.once.1⟩, hw.once.2⟩, always_concat.mpr ⟨hw.proper, trivial⟩⟩
  · rw [wiring_concat]
    exact hw.allClients.cons client
  · rw [wiring_concat]
    exact hw.allLinks
  · exact fun hin => hnew (hw.allClients.mem_iff.mpr hin)

/-- It is open no longer once it was closed. -/
theorem Wired.closed (hw : Wired row pending (client :: clients) links h) {a : Except Fault Unit} :
    Wired row pending clients links (h ++ [.call (.closeClient client) a]) := by
  obtain ⟨hout, hclients⟩ := List.nodup_cons.mp hw.once.1
  have hrest : (client :: clients).filter (· ≠ client) = clients := by
    rw [List.filter_cons_of_neg (by simp)]
    exact List.filter_eq_self.mpr fun c hc => by simpa using fun heq : c = client => hout (heq ▸ hc)
  refine ⟨?_, ?_, ⟨hclients, hw.once.2⟩, always_concat.mpr ⟨hw.proper, trivial⟩⟩
  · rw [wiring_concat]
    exact (hw.allClients.filter _).trans (by rw [hrest])
  · rw [wiring_concat]
    exact hw.allLinks

/-- A receiver that is not attached, as it is made. -/
def Made (link : Link) (h : Trace sdk) : Prop :=
  ((wiring h).made.find? fun l => l.handle = link.handle) = some link ∧
    link.handle ∉ (wiring h).attached.map Link.handle

theorem Wired.made {entity : EntityRef} {profile : ReceiverProfile} (hw : Wired row pending clients links h)
    (hclient : client ∈ clients) (hmeant : Meant row pending entity profile.receiveMode)
    (hnew : NewHandle h (.call (.getReceiver client entity profile) (.ok receiver))) :
    Wired row pending clients links (h ++ [.call (.getReceiver client entity profile) (.ok receiver)]) ∧
      Made ⟨receiver, entity, profile.receiveMode⟩
        (h ++ [.call (.getReceiver client entity profile) (.ok receiver)]) := by
  refine ⟨⟨?_, ?_, hw.once, always_concat.mpr ⟨hw.proper, hw.allClients.mem_iff.mpr hclient, hmeant⟩⟩, ?_, ?_⟩
  · rw [wiring_concat]
    exact hw.allClients
  · rw [wiring_concat]
    exact hw.allLinks
  · rw [wiring_concat]
    exact List.find?_cons_of_pos (by simp)
  · rw [wiring_concat]
    exact hnew

/-- A receiver is open from its attachment on. -/
theorem Wired.attached (hw : Wired row pending clients links h) (hmade : Made link h) :
    Wired row pending clients (link :: links) (h ++ [.call (.enterReceiver link.handle) (.ok ())]) := by
  obtain ⟨hfind, hout⟩ := hmade
  have hstep : (wiring h).step (.call (.enterReceiver link.handle) (.ok ())) =
      { wiring h with attached := link :: (wiring h).attached } := by
    rw [Wiring.step, hfind]
    rfl
  refine ⟨?_, ?_, ⟨hw.once.1, ?_⟩, always_concat.mpr ⟨hw.proper, trivial⟩⟩
  · rw [wiring_concat, hstep]
    exact hw.allClients
  · rw [wiring_concat, hstep]
    exact hw.allLinks.cons link
  · rw [List.map_cons]
    exact List.nodup_cons.mpr ⟨fun hin => hout ((hw.allLinks.map Link.handle).mem_iff.mpr hin), hw.once.2⟩

/-- It is open no longer once it was closed. -/
theorem Wired.detached (hw : Wired row pending clients (link :: links) h) {a : Except Fault Unit} :
    Wired row pending clients links (h ++ [.call (.closeReceiver link.handle) a]) := by
  have honce := hw.once.2
  rw [List.map_cons] at honce
  obtain ⟨hout, hlinks⟩ := List.nodup_cons.mp honce
  have hrest : (link :: links).filter (fun l => l.handle ≠ link.handle) = links := by
    rw [List.filter_cons_of_neg (by simp)]
    refine List.filter_eq_self.mpr fun l hl => ?_
    simpa using fun heq : l.handle = link.handle => hout (heq ▸ List.mem_map_of_mem hl)
  refine ⟨?_, ?_, ⟨hw.once.1, hlinks⟩, always_concat.mpr ⟨hw.proper, trivial⟩⟩
  · rw [wiring_concat]
    exact hw.allClients
  · rw [wiring_concat]
    exact (hw.allLinks.filter _).trans (by rw [hrest])

/-- Closing a receiver that is not attached closes nothing. -/
theorem Wired.unattached (hw : Wired row pending clients links h) (hmade : Made link h) {a : Except Fault Unit} :
    Wired row pending clients links (h ++ [.call (.closeReceiver link.handle) a]) := by
  refine hw.event trivial ?_
  have hrest : (wiring h).attached.filter (fun l => l.handle ≠ link.handle) = (wiring h).attached := by
    refine List.filter_eq_self.mpr fun l hl => ?_
    simpa using fun heq : l.handle = link.handle => hmade.2 (heq ▸ List.mem_map_of_mem hl)
  rw [Wiring.step, hrest]

end Events

/-! ### Calls -/

/-- The call opens or closes something. -/
def Call.connects : Call → Bool
  | .dataClient _ | .closeClient _ | .getReceiver .. | .enterReceiver _ | .closeReceiver _ => true
  | _ => false

/-- The call needs nothing open and suits every mode. -/
def Call.isFree : Call → Bool
  | .utcNow | .monotonic | .sleep _ | .throttledRequests | .loadMetadata _ | .writeManifest _ | .createCsv
  | .writeHeader _ | .writeRows _ | .closeCsv | .writeStateFile _ => true
  | _ => false

theorem Wiring.step_call {w : Wiring} {c : Call} {a : Reply c} (hc : c.connects = false) : w.step (.call c a) = w := by
  cases c <;> first | rfl | cases hc

theorem connects_of_free {c : Call} (hc : c.isFree = true) : c.connects = false := by
  cases c <;> first | rfl | cases hc

theorem proper_of_free {w : Wiring} {c : Call} {a : Reply c} (hc : c.isFree = true) :
    Proper row pending w (.call c a) := by
  cases c <;> trivial

section Calls

variable {α : Type} {w : W} {client receiver : Handle} {link : Link} {C : W → List Handle} {L : W → List Link}

theorem wp_wiredCall {c : Call} {result : Reply c → Except Exn α} {Q : Except Exn α → W → Trace sdk → Prop}
    (hw : Wired row pending clients links h) (hc : c.connects = false)
    (hproper : ∀ a, Proper row pending (wiring h) (.call c a))
    (hQ : ∀ r h', Wired row pending clients links h' → Q r w h') :
    Wp Issuing (Prog.request (S := sdk) c result) Q w h := by
  refine wp_request.mpr ?_
  rintro a _ ⟨-, rfl⟩
  exact hQ _ _ (hw.event (hproper a) (Wiring.step_call hc))

theorem wp_wiredPerform {c : Call} {Q : Except Exn (Reply c) → W → Trace sdk → Prop}
    (hw : Wired row pending clients links h) (hc : c.connects = false)
    (hproper : ∀ a, Proper row pending (wiring h) (.call c a))
    (hQ : ∀ a h', Wired row pending clients links h' → Q (.ok a) w h') :
    Wp Issuing (Prog.perform (S := sdk) c) Q w h := by
  refine wp_perform.mpr ?_
  rintro a _ ⟨-, rfl⟩
  exact hQ a _ (hw.event (hproper a) (Wiring.step_call hc))

theorem wp_wiredNote {n : Note} {Q : Except Exn Unit → W → Trace sdk → Prop} (hw : Wired row pending clients links h)
    (hQ : ∀ h', Wired row pending clients links h' → Q (.ok ()) w h') : Wp Issuing (Prog.note (S := sdk) n) Q w h := by
  refine wp_note.mpr ?_
  rintro _ ⟨-, rfl⟩
  exact hQ _ (hw.event trivial rfl)

theorem keeps_wiredCall {c : Call} {result : Reply c → Except Exn α} (hc : c.connects = false)
    (hproper : ∀ w h, Wired row pending (C w) (L w) h → ∀ a, Proper row pending (wiring h) (.call c a)) :
    Keeps Issuing (Holding row pending C L) (Prog.request (S := sdk) c result : Program W α) :=
  fun w h hw => wp_wiredCall hw hc (hproper w h hw) fun _ _ h' => h'

theorem keeps_freeCall {c : Call} {result : Reply c → Except Exn α} (hc : c.isFree = true) :
    Keeps Issuing (Holding row pending C L) (Prog.request (S := sdk) c result : Program W α) :=
  keeps_wiredCall (connects_of_free hc) fun _ _ _ _ => proper_of_free hc

theorem keeps_freePerform {c : Call} (hc : c.isFree = true) :
    Keeps Issuing (Holding row pending C L) (Prog.perform (S := sdk) c : Program W _) :=
  fun _ _ hw => wp_wiredPerform hw (connects_of_free hc) (fun _ => proper_of_free hc) fun _ _ h' => h'

theorem keeps_wiredNote {n : Note} :
    Keeps Issuing (Holding row pending C L) (Prog.note (S := sdk) n : Program W Unit) :=
  fun _ _ hw => wp_wiredNote hw fun _ h' => h'

/-- The order in which things are listed does not matter. -/
theorem Keeps.permute {C' : W → List Handle} {p : Program W α} (hp : Keeps Issuing (Holding row pending C L) p)
    (hC : ∀ w, (C w).Perm (C' w)) : Keeps Issuing (Holding row pending C' L) p :=
  fun w h hw => (hp w h (hw.permute (hC w).symm (.refl _))).mono fun _ w' _ hw' => hw'.permute (hC w') (.refl _)

/-- A client is open once it was built. -/
theorem wp_dataClient {retries : Bool} {Q : Except Exn Handle → W → Trace sdk → Prop}
    (hw : Wired row pending clients links h)
    (hok : ∀ client h', Wired row pending (client :: clients) links h' → Q (.ok client) w h')
    (herror : ∀ e h', Wired row pending clients links h' → Q (.error e) w h') :
    Wp Issuing (dataClient row retries) Q w h := by
  refine wp_request.mpr ?_
  rintro (fault | client) _ ⟨hnew, rfl⟩
  · have hw' : Wired row pending clients links (h ++ [.call (.dataClient retries) (.error fault)]) :=
      hw.event trivial rfl
    cases fault with
    | valueError text =>
      dsimp only
      split
      · exact herror _ _ hw'
      · exact herror _ _ hw'
    | alreadySettled text =>
      dsimp only
      split
      · exact herror _ _ hw'
      · exact herror _ _ hw'
    | _ => exact herror _ _ hw'
  · exact hok client _ (hw.opened hnew)

theorem opens_dataClient {retries : Bool} : Opens Issuing (Beside row pending clients links)
    (fun client => Beside row pending (client :: clients) links) (dataClient row retries : Program W Handle) :=
  fun _ _ hw => wp_dataClient hw (fun _ _ h' => h') fun _ _ h' => h'

/-- The row's entity may be peeked, or its messages locked. -/
theorem meant_peek : Meant row pending row.entity .peekLock := .inl ⟨rfl, .inl rfl⟩

/-- A receiver is made on an open client. -/
theorem wp_openReceiver {entity : EntityRef} {profile : ReceiverProfile} {Q : Except Exn Handle → W → Trace sdk → Prop}
    (hw : Wired row pending clients links h) (hclient : client ∈ clients)
    (hmeant : Meant row pending entity profile.receiveMode)
    (hok : ∀ receiver h', Wired row pending clients links h' → Made ⟨receiver, entity, profile.receiveMode⟩ h' →
      Q (.ok receiver) w h')
    (herror : ∀ e h', Wired row pending clients links h' → Q (.error e) w h') :
    Wp Issuing (openReceiver row entity client profile) Q w h := by
  refine wp_request.mpr ?_
  rintro (fault | receiver) _ ⟨hnew, rfl⟩
  · have hw' : Wired row pending clients links (h ++ [.call (.getReceiver client entity profile) (.error fault)]) :=
      hw.event ⟨hw.allClients.mem_iff.mpr hclient, hmeant⟩ rfl
    cases fault with
    | _ => exact herror _ _ hw'
  · obtain ⟨hw', hmade⟩ := hw.made hclient hmeant hnew
    exact hok receiver _ hw' hmade

/-- A receiver is open once it was entered; where it was not, it stays what it was. -/
theorem wp_enterReceiverCall {Q : Except Exn Unit → W → Trace sdk → Prop} (hw : Wired row pending clients links h)
    (hmade : Made link h) (hok : ∀ h', Wired row pending clients (link :: links) h' → Q (.ok ()) w h')
    (herror : ∀ e h', Wired row pending clients links h' → Made link h' → Q (.error e) w h') :
    Wp Issuing (enterReceiverCall link.handle) Q w h := by
  refine wp_request.mpr ?_
  rintro (fault | _) _ ⟨-, rfl⟩
  · refine herror _ _ (hw.event trivial rfl) ?_
    rw [Made, wiring_concat]
    exact hmade
  · exact hok _ (hw.attached hmade)

/-- Closing a receiver that is not attached closes nothing. -/
theorem wp_closeUnattached {Q : Except Exn Unit → W → Trace sdk → Prop} (hw : Wired row pending clients links h)
    (hmade : Made link h) (hQ : ∀ r h', Wired row pending clients links h' → Q r w h') :
    Wp Issuing (closeReceiver link.handle) Q w h := by
  refine wp_request.mpr ?_
  rintro a _ ⟨-, rfl⟩
  exact hQ _ _ (hw.unattached hmade)

theorem wp_closeReceiver {Q : Except Exn Unit → W → Trace sdk → Prop} (hw : Wired row pending clients (link :: links) h)
    (hQ : ∀ r h', Wired row pending clients links h' → Q r w h') : Wp Issuing (closeReceiver link.handle) Q w h := by
  refine wp_request.mpr ?_
  rintro a _ ⟨-, rfl⟩
  exact hQ _ _ hw.detached

theorem wp_closeReceiverQuietly {Q : Except Exn Unit → W → Trace sdk → Prop}
    (hw : Wired row pending clients (link :: links) h)
    (hQ : ∀ h', Wired row pending clients links h' → Q (.ok ()) w h') :
    Wp Issuing (closeReceiverQuietly link.handle) Q w h := by
  refine wp_tryCatch.mpr (wp_closeReceiver hw fun r h' hw' => ?_)
  cases r with
  | error e => exact wp_pure.mpr (hQ h' hw')
  | ok _ => exact hQ h' hw'

theorem wp_closeClient {Q : Except Exn Unit → W → Trace sdk → Prop} (hw : Wired row pending (client :: clients) links h)
    (hQ : ∀ r h', Wired row pending clients links h' → Q r w h') : Wp Issuing (closeClient client) Q w h := by
  refine wp_request.mpr ?_
  rintro a _ ⟨-, rfl⟩
  exact hQ _ _ hw.closed

theorem wp_closeClientQuietly {Q : Except Exn Unit → W → Trace sdk → Prop}
    (hw : Wired row pending (client :: clients) links h)
    (hQ : ∀ h', Wired row pending clients links h' → Q (.ok ()) w h') :
    Wp Issuing (closeClientQuietly client) Q w h := by
  refine wp_tryCatch.mpr (wp_closeClient hw fun r h' hw' => ?_)
  cases r with
  | error e => exact wp_pure.mpr (hQ h' hw')
  | ok _ => exact hQ h' hw'

/-- A receiver that fails to open is closed. -/
theorem wp_enterReceiver {Q : Except Exn Unit → W → Trace sdk → Prop} (hw : Wired row pending clients links h)
    (hmade : Made link h) (hok : ∀ h', Wired row pending clients (link :: links) h' → Q (.ok ()) w h')
    (herror : ∀ e h', Wired row pending clients links h' → Q (.error e) w h') :
    Wp Issuing (enterReceiver link.handle) Q w h := by
  refine wp_tryCatch.mpr (wp_enterReceiverCall hw hmade hok fun e h' hw' hmade' => ?_)
  refine wp_bind.mpr (wp_tryCatch.mpr (wp_closeUnattached hw' hmade' fun r h₁ hw₁ => ?_))
  cases r with
  | error e' => exact wp_pure.mpr (wp_throw.mpr (herror e h₁ hw₁))
  | ok _ => exact wp_throw.mpr (herror e h₁ hw₁)

theorem closes_receiver (link : Link) :
    Closes Issuing (Holding row pending C fun w => link :: L w) (Holding row pending C L)
    (closeReceiver link.handle : Program W Unit) := fun _ _ hw => wp_closeReceiver hw fun _ _ h' => h'

theorem closes_client : Closes Issuing (Holding row pending (fun w => client :: C w) L) (Holding row pending C L)
    (closeClient client : Program W Unit) := fun _ _ hw => wp_closeClient hw fun _ _ h' => h'

/-- A receiver that is opened, used and closed. -/
theorem wp_usingReceiver {entity : EntityRef} {profile : ReceiverProfile} {use : Handle → Program W α}
    (hw : Wired row pending (C w) (L w) h) (hclient : client ∈ C w)
    (hmeant : Meant row pending entity profile.receiveMode)
    (huse : ∀ receiver,
      Keeps Issuing (Holding row pending C fun w => ⟨receiver, entity, profile.receiveMode⟩ :: L w) (use receiver)) :
    Wp Issuing (do
      let receiver ← openReceiver row entity client profile
      withReceiver receiver (use receiver)) (fun _ => Holding row pending C L) w h := by
  refine wp_bind.mpr (wp_openReceiver hw hclient hmeant (fun receiver h₁ hw₁ hmade => ?_) fun _ _ h' => h')
  refine wp_bind.mpr (wp_enterReceiverCall hw₁ hmade (fun h₂ hw₂ => ?_) fun _ _ h' _ => h')
  exact closes_ensuring (huse receiver) (closes_receiver ⟨receiver, entity, profile.receiveMode⟩) w h₂ hw₂

/-- A client that is opened for a peeker, used and closed. -/
theorem keeps_wiredPeeker {use : Handle → Program W α} (huse : ∀ client peeker,
    Keeps Issuing (Holding row pending (fun w => client :: C w) fun w => peekLink row peeker :: L w) (use peeker)) :
    Keeps Issuing (Holding row pending C L) (withPeeker row use) := by
  refine fun w h hw => wp_bind.mpr (wp_dataClient hw (fun client h₁ hw₁ => ?_) fun _ _ h' => h')
  exact closes_ensuring (fun w h hw => wp_usingReceiver (C := fun w => client :: C w) hw List.mem_cons_self meant_peek
    (huse client))
    closes_client w h₁ hw₁

theorem wp_wiredRenewal {now : Time} {Q : Except Exn Unit → W → Trace sdk → Prop}
    (hw : Wired row pending clients links h) (hsessions : row.sessions = true) (hlink : rowLink row receiver ∈ links)
    (hQ : ∀ r h', Wired row pending clients links h' → Q r w h') :
    Wp Issuing (renewSessionIfNeeded receiver now) Q w h := by
  have hproper : ∀ h, Wired row pending clients links h → row.sessions = true ∧
      rowLink row receiver ∈ (wiring h).attached :=
    fun h hw => ⟨hsessions, hw.mem hlink⟩
  refine wp_bind.mpr (wp_wiredPerform hw rfl (fun _ => hproper h hw) fun _ h₁ hw₁ => ?_)
  refine wp_ite.mpr ⟨fun _ => ?_, fun _ => wp_pure.mpr (hQ _ h₁ hw₁)⟩
  exact wp_wiredCall hw₁ rfl (fun _ => hproper h₁ hw₁) hQ

theorem keeps_wiredPeek {count : ℕ} {start : ℤ} (hlink : ∀ w, peekLink row receiver ∈ L w) :
    Keeps Issuing (Holding row pending C L) (peekMessages receiver count start : Program W (List Message)) :=
  keeps_wiredCall rfl fun w _ hw _ => hw.mem (hlink w)

end Calls

/-! ### A batch -/

section Batch

variable {receiver : Handle} {message : Message}

theorem stillFrame_wired : StillFrame Issuing (Beside (W := RunState) row pending clients links) where
  stats _ _ hw := hw
  still := by
    rintro e s h _ he ⟨-, rfl⟩ hw
    refine hw.event ?_ ?_
    · rcases e with ⟨c, a⟩ | n
      · cases c <;> trivial
      · trivial
    · rcases e with ⟨c, a⟩ | n
      · cases c <;> first | rfl | exact he.elim
      · rfl

theorem keeps_modifyWired {change : RunState → RunState} : Keeps Issuing (Beside row pending clients links)
    (modify change : Run Unit) :=
  keeps_modify fun _ _ hw => hw

theorem keeps_armWired : Keeps Issuing (Beside row pending clients links) armWriteAlways := by
  refine keeps_bind keeps_get fun s => keeps_ite (fun _ => keeps_pure) fun _ => ?_
  cases s.output.definition with
  | none => exact keeps_throw
  | some definition => exact keeps_bind keeps_modifyWired fun _ => keeps_freeCall rfl

theorem keeps_writeWired (rows : List OutputRow) :
    Keeps Issuing (Beside row pending clients links) (writeRows row rows) := by
  refine keeps_bind keeps_get fun _ => ?_
  refine keeps_bind (keeps_when keeps_throw) fun _ => ?_
  exact keeps_bind keeps_ofExcept fun _ => keeps_freeCall rfl

/-- The messages of a batch are settled on its receiver, as the mode settles them. -/
theorem keeps_settleWired (hlink : row.mode.holdsLocks = true → rowLink row receiver ∈ links) (bodyBytes : ℕ) :
    Keeps Issuing (Beside row pending clients links) (settle row receiver message bodyBytes) := by
  have hF : StillFrame Issuing (Beside row pending clients links) := stillFrame_wired
  have hsettles : row.mode = .complete ∨ row.mode = .deferCommit → rowLink row receiver ∈ links :=
    fun hmode => hlink (holdsLocks_of_settles hmode)
  refine keeps_safeSettle hF (keeps_bind (keeps_ite (fun hlocks => ?_) fun _ => keeps_pure) fun _ => ?_)
  · refine keeps_bind (keeps_freePerform rfl) fun now => ?_
    exact keeps_when (keeps_wiredCall rfl fun _ h hw _ => ⟨hlocks, hw.mem (hlink hlocks)⟩)
  · unfold modeSettle
    split
    · rename_i hmode
      refine keeps_bind keeps_get fun _ => ?_
      refine keeps_bind (keeps_when (keeps_bind keeps_armWired fun _ => keeps_modifyWired)) fun _ => ?_
      refine keeps_bind (keeps_wiredCall rfl fun _ h hw _ => ⟨hmode, hw.mem (hsettles (.inl hmode))⟩)
        fun _ => keeps_modifyWired
    · rename_i hmode
      refine keeps_bind (keeps_wiredCall rfl fun _ h hw _ => ⟨hmode, hw.mem (hsettles (.inr hmode))⟩) fun _ => ?_
      exact keeps_bind keeps_modifyWired fun _ => keeps_modifyWired
    · exact keeps_modifyWired
    · exact keeps_pure

/-- An unreadable body is given back or dead-lettered only where the message is locked. -/
theorem keeps_handleWired (hlink : row.mode.holdsLocks = true → rowLink row receiver ∈ links) (error : UnreadableError)
    (generation : ℕ) : Keeps Issuing (Beside row pending clients links)
    (handleUnreadable row receiver message error generation) := by
  have hF : StillFrame Issuing (Beside row pending clients links) := stillFrame_wired
  have hcount : ∀ reason disposition, Keeps Issuing (Beside row pending clients links)
      (countUnreadable message reason disposition) :=
    fun _ _ => keeps_bind keeps_modifyWired fun _ => keeps_wiredNote
  have hdisposed : ∀ reason disposition detail,
      Keeps Issuing (Beside row pending clients links) (countDisposed message reason disposition detail) :=
    fun reason disposition _ => keeps_bind (hcount reason disposition) fun _ => keeps_warn hF _ _
  have hdispose : Keeps Issuing (Beside row pending clients links) (disposeUnreadable row receiver message error) := by
    refine keeps_ite (fun _ => ?_) fun _ => keeps_ite (fun _ => ?_) fun hlocks => keeps_ite (fun hdead => ?_)
      fun _ => ?_
    · exact keeps_bind (hcount _ _) fun _ => keeps_bind keeps_modifyWired fun _ => keeps_pure
    · exact keeps_bind (hdisposed _ _ _) fun _ => keeps_pure
    · have hlocks' : row.mode.holdsLocks = true := by simpa using hlocks
      refine keeps_bind (keeps_safeSettle hF (keeps_wiredCall rfl fun _ h hw _ => ?_)) fun _ =>
        keeps_bind (hdisposed _ _ _) fun _ => keeps_pure
      exact ⟨hlocks', hdead.1, hdead.2, hw.mem (hlink hlocks')⟩
    · refine keeps_bind (keeps_when (keeps_warn hF _ _)) fun _ => ?_
      refine keeps_bind keeps_modifyWired fun _ => ?_
      exact keeps_bind (hdisposed _ _ _) fun _ => keeps_pure
  have hretry : Keeps Issuing (Beside row pending clients links)
      (retryUnreadable row receiver message generation error.reason) := by
    refine keeps_bind keeps_modifyWired fun _ => ?_
    refine keeps_bind (keeps_ite (fun hlocks => ?_) fun _ => keeps_pure) fun _ => keeps_bind (hcount _ _)
      fun _ => keeps_pure
    exact keeps_safeSettle hF (keeps_wiredCall rfl fun _ h hw _ => ⟨hlocks, hw.mem (hlink hlocks)⟩)
  have hshould : Keeps Issuing (Beside row pending clients links) (shouldRetry row message generation) := by
    refine keeps_bind keeps_get fun _ => ?_
    refine keeps_ite (fun _ => keeps_pure) fun _ => ?_
    refine keeps_ite (fun _ => keeps_pure) fun _ => ?_
    exact keeps_ite (fun _ => keeps_bind (keeps_warn hF _ _) fun _ => keeps_pure) fun _ => keeps_pure
  refine keeps_bind keeps_get fun s => ?_
  refine keeps_ite (fun _ => keeps_pure) fun _ => ?_
  refine keeps_ite (fun _ => ?_) fun _ => hdispose
  exact keeps_bind hshould fun again => keeps_ite (fun _ => hretry) fun _ => hdispose

/-- A batch is processed on the receiver it came from. -/
theorem keeps_processWired (hlink : row.mode.holdsLocks = true → rowLink row receiver ∈ links) (messages : List Message)
    (generation : ℕ) : Keeps Issuing (Beside row pending clients links) (process row receiver messages generation) := by
  have hF : StillFrame Issuing (Beside row pending clients links) := stillFrame_wired
  have hmap : ∀ extractedAt draft message,
      Keeps Issuing (Beside row pending clients links)
        (mapMessage row receiver extractedAt generation draft message) := by
    refine fun extractedAt draft message => keeps_bind keeps_modifyWired fun _ => keeps_bind ?_ fun mapped => ?_
    · exact keeps_toRow (fun _ _ hw => hw) message extractedAt
    · rcases mapped with error | ⟨output, bodyBytes⟩
      · refine keeps_bind (keeps_handleWired hlink error generation) fun _ => ?_
        exact keeps_ite (fun _ => keeps_pure) fun _ => keeps_pure
      · exact keeps_pure
  refine keeps_bind (keeps_freePerform rfl) fun extractedAt => ?_
  refine keeps_bind (keeps_foldlM fun draft m _ => hmap extractedAt draft m) fun draft => ?_
  refine keeps_bind (keeps_when (keeps_bind (keeps_writeWired _) fun _ => keeps_modifyWired)) fun _ => ?_
  refine keeps_bind (keeps_forM fun readable _ => keeps_settleWired hlink readable.2) fun _ => ?_
  exact keeps_bind (keeps_raiseAfterBatch fun hw => hw) fun _ => keeps_pure

end Batch

/-! ### Deferred messages -/

section Deferred

variable {receiver client : Handle} {C : W → List Handle} {L : W → List Link}

theorem stillKeeps_wired : StillKeeps Issuing (Holding row pending C L) := by
  intro e w h h' he hR hw
  have hF : StillFrame Issuing (Beside row pending (C w) (L w)) := stillFrame_wired
  exact hF.still e {} h h' he hR hw

/-- Halving a deferred receive asks the one receiver for parts of the numbers. -/
theorem keeps_bisectWired {seqs : List ℤ}
    (hproper : ∀ w (h : Trace sdk) (part : List ℤ) (a : Except Fault (List Message)),
      Wired row pending (C w) (L w) h → part.Sublist seqs →
      Proper row pending (wiring h) (.call (.receiveDeferredMessages receiver part deferredReceiveTimeoutSeconds) a))
    (sessionLocked : Bool) :
    Keeps Issuing (Holding row pending C L)
      (receiveDeferredBisect receiver seqs sessionLocked : Program W DeferredReceive) := by
  refine keeps_bisect stillKeeps_wired (fun part hpart => ?_) _ _ (.refl _)
  exact keeps_wiredCall rfl fun w h hw a => hproper w h part a hw hpart.2

/-- A receiver that deletes on a stored entity is open once it was entered. -/
theorem opens_commitReceiver (hdestructive : row.mode.isDestructive = true) (hclient : client ∈ clients)
    {pe : PendingEntity} (hpe : pe ∈ pending) (session : Option String) :
    Opens Issuing (Beside row pending clients links)
      (fun receiver => Beside row pending clients (commitLink pe.entity receiver :: links))
      (openCommitReceiver row client pe.entity session) := by
  have hmeant : Meant row pending pe.entity .receiveAndDelete := .inr ⟨hdestructive, rfl, pe, hpe, rfl⟩
  intro c h hw
  refine wp_bind.mpr (wp_openReceiver hw hclient hmeant (fun receiver h₁ hw₁ hmade => ?_) fun _ _ h' => h')
  refine wp_bind.mpr (wp_tryCatch.mpr (wp_enterReceiverCall hw₁ hmade (fun h₂ hw₂ => wp_pure.mpr hw₂) ?_))
  intro e h₂ hw₂ hmade₂
  refine wp_bind.mpr (wp_closeUnattached hw₂ hmade₂ fun r h₃ hw₃ => ?_)
  cases r with
  | error e' => exact hw₃
  | ok _ => exact wp_throw.mpr hw₃

/-- What opens a receiver still does after the waits of a retry. -/
theorem opens_retried {L' : Handle → List Link} {p : Commit Handle}
    (hopen : Opens Issuing (Beside row pending clients links)
      (fun receiver => Beside row pending clients (L' receiver)) p)
    (delays : List ℤ) :
    Opens Issuing (Beside row pending clients links) (fun receiver => Beside row pending clients (L' receiver))
      (withTransientRetry (retryable true) p delays) := by
  induction delays with
  | nil => exact hopen
  | cons delay delays ih =>
    refine fun c h hw => wp_tryCatch.mpr ((hopen c h hw).mono fun r c' h' hend => ?_)
    cases r with
    | ok receiver => exact hend
    | error e =>
      refine wp_ite.mpr ⟨fun _ => ?_, fun _ => wp_throw.mpr hend⟩
      have hw' : Beside row pending clients links c' h' := hend
      exact (keeps_freePerform rfl).wp_bind hw' (fun _ c'' h'' hw'' => ih c'' h'' hw'') fun _ _ _ hw'' => hw''

/-- A chunk of a stored group is deleted on a receiver of its entity. -/
theorem keeps_deleteChunkWired (hdestructive : row.mode.isDestructive = true) {pe : PendingEntity} (hpe : pe ∈ pending)
    {group : PendingGroup} (hgroup : group ∈ pe.groups) {chunk : List ℤ} (hchunk : chunk ∈ group.chunks)
    (sessionLocked : Bool) :
    Keeps Issuing (Beside row pending clients (commitLink pe.entity receiver :: links))
      (deleteChunk receiver sessionLocked chunk) := by
  have hstored : ∀ h (part : List ℤ), Wired row pending clients (commitLink pe.entity receiver :: links) h →
      part.Sublist chunk →
      StoredDeferral pending (wiring h) receiver part := by
    refine fun h part hw hpart => ⟨pe, hpe, hw.mem List.mem_cons_self, group, hgroup, fun q hq => ?_⟩
    exact covers_chunks.mpr (List.mem_flatten.mpr ⟨chunk, hchunk, hpart.subset hq⟩)
  refine keeps_bind (keeps_bisectWired (fun _ h part _ hw hpart => ⟨hdestructive, .inl (hstored h part hw hpart)⟩) _)
    fun result => ?_
  exact keeps_bind (keeps_embed (fun _ => rfl) fun _ => keeps_modifyWired) fun _ => keeps_modify fun _ _ hw => hw

/-- The receiver of a stored group is closed again. -/
theorem keeps_deleteWired (hdestructive : row.mode.isDestructive = true) (hclient : client ∈ clients)
    {pe : PendingEntity} (hpe : pe ∈ pending) {group : PendingGroup} (hgroup : group ∈ pe.groups) :
    Keeps Issuing (Beside row pending clients links) (deleteGroup row client pe.entity group) := by
  have hopens : Opens Issuing (Beside row pending clients links)
      (fun receiver => Beside row pending clients (commitLink pe.entity receiver :: links)) _ :=
    opens_retried (opens_commitReceiver hdestructive hclient hpe group.sessionId) transientBackoffSeconds
  refine keeps_bracket hopens (fun receiver => ?_) fun receiver => closes_receiver (commitLink pe.entity receiver)
  have hchunks : ∀ sessionLocked, ∀ chunk ∈ group.chunks,
      Keeps Issuing (Beside row pending clients (commitLink pe.entity receiver :: links))
        (deleteChunk receiver sessionLocked chunk) :=
    fun sessionLocked chunk hchunk => keeps_deleteChunkWired hdestructive hpe hgroup hchunk sessionLocked
  show Keeps _ _ (deleteChunks receiver group.chunks)
  cases hall : group.chunks with
  | nil => exact keeps_pure
  | cons chunk rest =>
    rw [hall] at hchunks
    refine keeps_bind (hchunks true chunk List.mem_cons_self) fun _ => ?_
    exact keeps_forM fun chunk hchunk => hchunks false chunk (List.mem_cons_of_mem _ hchunk)

end Deferred

/-! ### The commit, the scan and the probe -/

section Commit

variable {client : Handle}

theorem keeps_onCommitWired {α : Type} {p : Run α} (hp : Keeps Issuing (Beside row pending clients links) p) :
    Keeps Issuing (Beside row pending clients links) (onCommitRun p) := keeps_embed (fun _ => rfl) fun _ => hp

theorem keeps_afterFailureWired (ref : EntityRef) (group : PendingGroup) (rest carried : List PendingGroup)
    (error : Exn) :
    Keeps Issuing (Beside row pending clients links) (afterGroupFailure row ref group rest carried error) := by
  have hF : StillFrame Issuing (Beside row pending clients links) := stillFrame_wired
  refine keeps_bind keeps_get fun c => ?_
  refine keeps_ite (fun _ => ?_) fun _ => keeps_ite (fun _ => keeps_ite (fun _ => ?_) fun _ => ?_)
    fun _ => keeps_ite (fun _ => keeps_throw) fun _ => ?_
  · exact keeps_bind (keeps_onCommitWired keeps_modifyWired) fun _ => keeps_pure
  · exact keeps_rethrow (I := Beside row pending clients links)
  · exact keeps_bind (keeps_onCommitWired (keeps_bind keeps_modifyWired fun _ => keeps_commitWarn hF _ _))
      fun _ => keeps_pure
  · exact keeps_rethrow (I := Beside row pending clients links)

theorem keeps_commitGroupsWired (hdestructive : row.mode.isDestructive = true) (hclient : client ∈ clients)
    {pe : PendingEntity} (hpe : pe ∈ pending) (carried : List PendingGroup) {groups : List PendingGroup}
    (hgroups : ∀ group ∈ groups, group ∈ pe.groups) :
    Keeps Issuing (Beside row pending clients links) (commitGroups row client pe.entity carried groups) := by
  induction groups generalizing carried with
  | nil => exact keeps_pure
  | cons group rest ih =>
    have hrest : ∀ g ∈ rest, g ∈ pe.groups := fun g hg => hgroups g (List.mem_cons_of_mem _ hg)
    have hdelete : Keeps Issuing (Beside row pending clients links) (deleteGroup row client pe.entity group) :=
      keeps_deleteWired hdestructive hclient hpe (hgroups group List.mem_cons_self)
    refine keeps_bind (keeps_modify fun _ _ hw => hw) fun _ => ?_
    refine keeps_bind (keeps_attempt hdelete) fun r => ?_
    rcases r with error | _
    · refine keeps_bind (keeps_afterFailureWired pe.entity group rest carried error) fun next => ?_
      cases next with
      | none => exact keeps_pure
      | some carried => exact ih carried hrest
    · exact ih carried hrest

/-- The client of the commit is closed again. -/
theorem keeps_commitWired (hdestructive : row.mode.isDestructive = true) :
    Keeps Issuing (Beside row pending clients links) (runCommit row pending) := by
  refine fun s h hw => wp_embed.mpr (?_ : Wp Issuing (commit row pending) _ _ _)
  refine keeps_ite (fun _ => keeps_pure)
    (fun _ => keeps_bracket opens_dataClient (fun client => ?_) fun _ => closes_client) _ h hw
  refine keeps_foldlM fun carried pe hpe => ?_
  have hgroups : Keeps Issuing (Beside row pending (client :: clients) links)
      (commitGroups row client pe.entity [] (pe.groups.filter fun group => group.ranges ≠ [])) :=
    keeps_commitGroupsWired hdestructive List.mem_cons_self (List.mem_filter.mp hpe).1 _
      fun _ hgroup => (List.mem_filter.mp hgroup).1
  refine keeps_bind (keeps_bind hgroups fun groups => ?_) fun groups => keeps_ite (fun _ => keeps_pure)
    fun _ => keeps_pure
  exact keeps_bind (keeps_when (keeps_onCommitWired (keeps_commitWarn stillFrame_wired _ _))) fun _ => keeps_pure

end Commit

/-- What the scan has open: its commit client, where it has one. -/
abbrev Scanning (row : Row) (pending : List PendingEntity) (clients : List Handle) (links : List Link) :
    ScanState → Trace sdk → Prop :=
  Holding row pending (fun s => s.commitClient.toList ++ clients) fun _ => links

section Scan

theorem keeps_onScanWired {α : Type} {p : Run α} (hp : ∀ clients, Keeps Issuing (Beside row pending clients links) p) :
    Keeps Issuing (Scanning row pending clients links) (onScanRun p) :=
  keeps_embed (fun _ => rfl) fun s => hp (s.commitClient.toList ++ clients)

theorem keeps_bestEffortWired : Keeps Issuing (Beside row pending clients links) (bestEffort row) := by
  refine keeps_bind keeps_get fun _ => ?_
  exact keeps_ite (fun _ => keeps_bind (keeps_warn stillFrame_wired _ _) fun _ => keeps_pure) fun _ => keeps_pure

theorem keeps_scanMessagesWired (now : Time) (orphans : List ℤ) (messages : List Message) :
    Keeps Issuing (Scanning row pending clients links) (scanMessages row now orphans messages) := by
  induction messages generalizing orphans with
  | nil => exact keeps_pure
  | cons message rest ih =>
    refine keeps_bind (keeps_onScanWired fun _ => keeps_modifyWired) fun _ => ?_
    refine keeps_ite (fun _ => ?_) fun _ => ?_
    · refine keeps_bind (keeps_bind (keeps_modify fun _ _ hw => hw) fun _ => ?_) fun orphans => ih orphans
      refine keeps_bind keeps_get fun _ => ?_
      refine keeps_ite (fun _ => ?_) fun _ => keeps_pure
      exact keeps_bind (keeps_onScanWired fun _ => keeps_modifyWired) fun _ => keeps_pure
    · refine keeps_bind (keeps_onScanWired fun _ => keeps_bestEffortWired) fun best => ?_
      refine keeps_ite (fun _ => ?_) fun _ => ih orphans
      refine keeps_bind (keeps_modify fun _ _ hw => hw) fun _ => ?_
      refine keeps_bind keeps_get fun _ => ?_
      exact keeps_ite (fun _ => keeps_pure) fun _ => ih orphans

/-- The client of the scan is open once it is asked for. -/
theorem wp_scanCommitClient {s : ScanState} (hw : Scanning row pending clients links s h) :
    Wp Issuing (scanCommitClient row)
    (Opened (Scanning row pending clients links) fun client s h => s.commitClient = some client ∧
      Scanning row pending clients links s h) s h := by
  rw [scanCommitClient, wp_bind, wp_get, onOk_ok]
  cases hclient : s.commitClient with
  | some client => exact wp_pure.mpr ⟨hclient, hw⟩
  | none =>
    refine wp_bind.mpr (wp_dataClient hw (fun client h₁ hw₁ => ?_) fun _ _ hw₁ => hw₁)
    have hopen : Wired row pending (client :: clients) links h₁ := by simpa [hclient] using hw₁
    exact wp_bind.mpr (wp_modify.mpr (wp_pure.mpr ⟨rfl, hopen⟩))

/-- The recovery keeps its client open for the next page, and closes its receiver. -/
theorem keeps_recoverWired (hmode : row.mode = .deferCommit) (orphans : List ℤ) :
    Keeps Issuing (Scanning row pending clients links) (recoverOrphans row orphans) := by
  have hlock : ∀ receiver, (⟨receiver, row.entity, .peekLock⟩ : Link) = rowLink row receiver := by
    intro receiver
    rw [rowLink, hmode]
    rfl
  have hdestructive : row.mode.isDestructive = true := by
    rw [hmode]
    rfl
  have hretries : ∀ change, Keeps Issuing (Scanning row pending clients links) (onScanRun (updateUnreadable change)) :=
    fun _ => keeps_onScanWired fun _ => keeps_modifyWired
  have hrecover : ∀ receiver chunk, Keeps Issuing (Scanning row pending clients (rowLink row receiver :: links))
      (recoverChunk row receiver chunk) := by
    refine fun receiver chunk => keeps_bind (keeps_bisectWired (fun _ h part _ hw _ => ?_) false) fun result => ?_
    · exact ⟨hdestructive, .inr ⟨hmode, hw.mem List.mem_cons_self⟩⟩
    · exact keeps_when (keeps_bind (keeps_onScanWired fun _ => keeps_processWired (fun _ => List.mem_cons_self) _ _)
        fun _ => keeps_onScanWired fun _ => keeps_modifyWired)
  have hbody : ∀ client change change', ∀ s h, s.commitClient = some client → Scanning row pending clients links s h →
      Wp Issuing (do
      onScanRun (updateUnreadable change)
      Prog.ensuring (do
          let receiver ← openReceiver row row.entity client (commitProfile row .peekLock .none)
          withReceiver receiver ((orphanChunks row orphans).forM (recoverChunk row receiver)))
        (onScanRun (updateUnreadable change'))) (fun _ => Scanning row pending clients links) s h := by
    intro client change change' s h hclient hw
    refine wp_bind.mpr (wp_embed.mpr (wp_modify.mpr (wp_ensuring.mpr ?_)))
    have hopen : client ∈ s.commitClient.toList ++ clients := by simp [hclient]
    refine Wp.mono ?_ fun r s₂ h₂ hw₂ => hretries change' s₂ h₂ hw₂
    refine wp_usingReceiver (C := fun s : ScanState => s.commitClient.toList ++ clients)
      (L := fun _ => links) hw hopen meant_peek
      fun receiver => keeps_forM fun chunk _ => ?_
    have hchunk := hrecover receiver chunk
    rw [← hlock] at hchunk
    exact hchunk
  refine keeps_when fun s h hw => wp_bind.mpr ((wp_scanCommitClient hw).mono ?_)
  rintro (e | client) s₁ h₁ hend
  · exact hend
  · exact wp_bind.mpr (wp_get.mpr (hbody client _ _ s₁ h₁ hend.1 hend.2))

/-- A page of the scan. -/
theorem keeps_scanPageWired (hmode : row.mode = .deferCommit) {peeker : Handle} (hlink : peekLink row peeker ∈ links) :
    Keeps Issuing (Scanning row pending clients links) (scanPage row peeker) := by
  refine keeps_bind keeps_get fun s => ?_
  refine keeps_bind (keeps_onScanWired fun _ => keeps_bestEffortWired) fun _ => ?_
  refine keeps_bind (keeps_wiredPeek fun _ => hlink) fun page => ?_
  refine keeps_ite (fun _ => keeps_pure) fun _ => ?_
  refine keeps_bind (keeps_freePerform rfl) fun now => ?_
  refine keeps_bind (keeps_scanMessagesWired now [] page) fun found => ?_
  refine keeps_bind (keeps_recoverWired hmode found.1) fun _ => ?_
  refine keeps_ite (fun _ => keeps_pure) fun _ => ?_
  exact keeps_bind (keeps_modify fun _ _ hw => hw) fun _ => keeps_pure

/-- The scan closes what it opened. -/
theorem keeps_scanWired (hmode : row.mode = .deferCommit) :
    Keeps Issuing (Beside row pending clients links) (runScan row) := by
  have hF : StillFrame Issuing (Beside row pending clients links) := stillFrame_wired
  have hwarn : ∀ key text, Keeps Issuing (Beside (W := ScanState) row pending clients links)
      (onScanRun (warn key text)) :=
    fun key text => keeps_embed (fun _ => rfl) fun _ => keeps_warn hF key text
  have hclose : Closes Issuing (Scanning row pending clients links)
      (Beside row pending clients links) closeScanClient := by
    intro s h hw
    have hopen : Wired row pending (s.commitClient.toList ++ clients) links h := hw
    rw [closeScanClient, wp_bind, wp_get, onOk_ok]
    cases hclient : s.commitClient with
    | none =>
      rw [hclient] at hopen
      exact wp_pure.mpr hopen
    | some client =>
      rw [hclient] at hopen
      refine wp_bind.mpr (wp_closeClient hopen fun r h₁ hw₁ => ?_)
      cases r with
      | error e => exact hw₁
      | ok _ => exact wp_modify.mpr hw₁
  have hpages : Keeps Issuing (Scanning row pending clients links)
      (mapServiceBusError row (withPeeker row fun peeker => Prog.iterate (scanPage row peeker) orphanPageCap)) := by
    refine keeps_mapServiceBusError row (keeps_wiredPeeker fun client peeker => keeps_iterate ?_ _)
    have hpage : Keeps Issuing (Scanning row pending (client :: clients) (peekLink row peeker :: links))
        (scanPage row peeker) :=
      keeps_scanPageWired hmode List.mem_cons_self
    exact Keeps.permute hpage fun _ => List.perm_middle
  have hscan : Closes Issuing (fun s h => s.commitClient = none ∧ Beside row pending clients links s h)
      (Beside row pending clients links) (scan row) := by
    rintro s h ⟨hclient, hw⟩
    have hopen : Scanning row pending clients links s h := by
      rw [Scanning, Holding, hclient]
      exact hw
    refine wp_ite.mpr ⟨fun _ => hwarn _ _ s h hw, fun _ => ?_⟩
    · refine wp_bind.mpr ((closes_ensuring hpages hclose s h hopen).mono fun r s₁ h₁ hw₁ => ?_)
      cases r with
      | error e => exact hw₁
      | ok finished =>
        refine keeps_bind (keeps_embed (fun _ => rfl) fun _ => ?_) (fun _ => keeps_when (hwarn _ _)) s₁ h₁ hw₁
        exact keeps_bind keeps_get fun _ => keeps_when (keeps_warn hF _ _)
  exact fun s h hw => wp_embed.mpr (hscan _ h ⟨rfl, hw⟩)

end Scan

/-- The probe closes what it opened. -/
theorem keeps_probeWired : Keeps Issuing (Beside row pending clients links) (probe row) :=
  keeps_when (keeps_bind keeps_get fun _ => keeps_bind (keeps_mapServiceBusError row
    (keeps_wiredPeeker fun _ _ => keeps_wiredPeek fun _ => List.mem_cons_self)) fun _ =>
      keeps_when (keeps_warn stillFrame_wired _ _))

end ServiceBusExtractor
