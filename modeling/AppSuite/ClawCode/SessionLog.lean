import AppSuite.System.Run
import AppSuite.ClawCode.SessionFile

/-!
This module contains the session log: the file to which a session writes what is pushed.
-/

namespace ClawCode

open Session

structure StoredSession where
  session : Session
  file : Option (List UInt8)

section Push

variable (display : PathBuf → Str)

-- What the file is after the record of what was just pushed; `fails` says that the file operations fail.
def Session.appendPersisted (session : Session) (record : JsonValue) (fails : Bool)
    (file : Option (List UInt8))
    : Except SessionError (Option (List UInt8)) :=
  match session.persistence with
  | none => .ok file
  | some _ =>
    if fails then
      .error .io
    else if file.getD [] = [] then
      (session.saveToPath display).map some
    else
      .ok (file.map (· ++ Text.encode (record.render ++ ['\n'])))

variable (stored : StoredSession) (now : UInt64) (fails : Bool)

def StoredSession.pushMessage (message : ConversationMessage)
    : Except SessionError Unit × StoredSession :=
  let touched := stored.session.touch now
  let session := { touched with messages := touched.messages ++ [message] }
  match session.appendPersisted display (messageRecord message) fails stored.file with
  | .ok file => (.ok (), ⟨session, file⟩)
  | .error error => (.error error, ⟨{ session with messages := session.messages.dropLast }, stored.file⟩)

def StoredSession.pushPromptEntry (text : Str) : Except SessionError Unit × StoredSession :=
  let entry : SessionPromptEntry := ⟨now, text⟩
  let session := { stored.session with promptHistory := stored.session.promptHistory ++ [entry] }
  match session.appendPersisted display entry.toJsonlRecord fails stored.file with
  | .ok file => (.ok (), ⟨session, file⟩)
  | .error error => (.error error, ⟨session, stored.file⟩)

inductive Pushed where
  | message (message : ConversationMessage)
  | promptEntry (text : Str)

structure Push where
  pushed : Pushed
  now : UInt64
  fails : Bool

def StoredSession.step (push : Push) : StoredSession :=
  match push.pushed with
  | .message message => (stored.pushMessage display push.now push.fails message).2
  | .promptEntry text => (stored.pushPromptEntry display push.now push.fails text).2

end Push

section Agreement

variable (display : PathBuf → Str) (generatedId : Str) (now : UInt64) (path : PathBuf)

def Session.IsEmpty (session : Session) : Prop := session.messages = [] ∧ session.promptHistory = []

def StoredSession.Agrees (stored : StoredSession) : Prop :=
  match stored.file with
  | none => stored.session.IsEmpty
  | some file => ∃ loaded, loadFromPath generatedId now path (some file) = .ok loaded
    ∧ loaded.messages = stored.session.messages ∧ loaded.promptHistory = stored.session.promptHistory

def StoredSession.Recorded (stored : StoredSession) (push : Push) : Prop :=
  match push.pushed with
  | .message _ =>
    if push.fails then
      stored.file = none → stored.session.IsEmpty
    else
      stored.file = none → Writable (stored.session.touch push.now)
  | .promptEntry _ =>
    push.fails = false ∧ Fits push.now ∧ (stored.file = none → Writable stored.session)

variable {display generatedId now path} {stored : StoredSession}

def Backs (file : List UInt8) (session : Session) : Prop :=
  ∃ loaded : Loaded, Holds file loaded ∧ loaded.messages = session.messages
    ∧ loaded.promptHistory = session.promptHistory

structure StoredSession.Backed (stored : StoredSession) (path : PathBuf) : Prop where
  persistence : stored.session.persistence = some path
  file : ∀ file, stored.file = some file → Backs file stored.session

structure StoredSession.Inv (stored : StoredSession) (path : PathBuf) : Prop extends stored.Backed path where
  empty : stored.file = none → stored.session.IsEmpty

theorem StoredSession.Inv.agrees (h : stored.Inv path) : stored.Agrees generatedId now path := by
  unfold StoredSession.Agrees
  cases hfile : stored.file with
  | none => exact h.empty hfile
  | some file =>
    have ⟨loaded, hholds, hmessages, hprompts⟩ := h.file file hfile
    exact ⟨_, hholds.loadFromPath generatedId now path, hmessages, hprompts⟩

theorem Session.appendPersisted_fails {session : Session} (path : PathBuf)
    (h : session.persistence = some path)
    (record : JsonValue) (file : Option (List UInt8))
    : session.appendPersisted display record true file = .error .io := by
  rw [appendPersisted, h]
  rfl

theorem StoredSession.Backed.appendPersisted (h : stored.Backed path) (display : PathBuf → Str)
    (session : Session)
    (hpersistence : session.persistence = some path) (hwritable : stored.file = none → Writable session)
    {effect : Loaded → Loaded} (hreads : ReadsAs record effect)
    (heffect : ∀ loaded : Loaded, loaded.messages = stored.session.messages
      → loaded.promptHistory = stored.session.promptHistory
      → (effect loaded).messages = session.messages
        ∧ (effect loaded).promptHistory = session.promptHistory)
    : ∃ file, session.appendPersisted display record false stored.file = .ok (some file)
        ∧ Backs file session := by
  rw [Session.appendPersisted, hpersistence]
  cases hfile : stored.file with
  | none =>
    have ⟨file, hsave, hholds⟩ := exists_saveToPath display (hwritable hfile)
    rw [Option.getD_none, if_pos rfl, hsave]
    exact ⟨file, rfl, session.toLoaded, hholds, rfl, rfl⟩
  | some file =>
    have ⟨loaded, hholds, hmessages, hprompts⟩ := h.file file hfile
    rw [Option.getD_some, if_neg hholds.ne_nil]
    exact ⟨_, rfl, effect loaded, hholds.append hreads, heffect loaded hmessages hprompts⟩

theorem StoredSession.Inv.of_backs {session : Session} {file : List UInt8}
    (hpersistence : session.persistence = some path) (h : Backs file session)
    : (⟨session, some file⟩ : StoredSession).Inv path where
  persistence := hpersistence
  file := by
    intro file' hfile
    cases hfile
    exact h
  empty := nofun

theorem StoredSession.Backed.pushMessage (h : stored.Backed path) {now : UInt64} {fails : Bool}
    {message : ConversationMessage} (hok : stored.Recorded ⟨.message message, now, fails⟩)
    : (stored.pushMessage display now fails message).2.Inv path := by
  unfold StoredSession.pushMessage
  dsimp only
  cases fails with
  | true =>
    rw [appendPersisted_fails path ?_]
    . rw [List.dropLast_concat]
      exact ⟨⟨h.persistence, h.file⟩, hok⟩
    . exact h.persistence
  | false =>
    have ⟨file, hfile, hbacks⟩ := h.appendPersisted display
      { stored.session.touch now with messages := stored.session.messages ++ [message] }
      h.persistence (fun hnone => ⟨(hok hnone).root, (hok hnone).created, (hok hnone).updated,
        (hok hnone).compaction, (hok hnone).prompts⟩)
      (readsAs_messageRecord message) (by
        intro loaded hmessages hprompts
        exact ⟨by rw [Loaded.pushMessage, hmessages], hprompts⟩)
    dsimp only [touch] at hfile ⊢
    rw [hfile]
    exact .of_backs h.persistence hbacks

theorem StoredSession.Backed.pushPromptEntry (h : stored.Backed path) {now : UInt64} {fails : Bool}
    {text : Str} (hok : stored.Recorded ⟨.promptEntry text, now, fails⟩)
    : (stored.pushPromptEntry display now fails text).2.Inv path := by
  obtain ⟨hfails, hfits, hwritable⟩ := hok
  cases hfails
  have hreads := @readsAs_promptRecord ⟨now, text⟩ hfits
  have ⟨file, hfile, hbacks⟩ := h.appendPersisted display
    { stored.session with promptHistory := stored.session.promptHistory ++ [⟨now, text⟩] }
    h.persistence (by
      intro hnone
      refine ⟨(hwritable hnone).root, (hwritable hnone).created, (hwritable hnone).updated,
        (hwritable hnone).compaction, ?_⟩
      rw [List.forall_mem_append, List.forall_mem_singleton]
      exact ⟨(hwritable hnone).prompts, hfits⟩)
    hreads (by
      intro loaded hmessages hprompts
      exact ⟨hmessages, by rw [Loaded.pushPrompt, hprompts]⟩)
  unfold StoredSession.pushPromptEntry
  dsimp only
  rw [hfile]
  exact .of_backs h.persistence hbacks

theorem StoredSession.Backed.step (h : stored.Backed path) (hok : stored.Recorded push)
    : (stored.step display push).Inv path := by
  obtain ⟨pushed, now, fails⟩ := push
  cases pushed with
  | message message => exact h.pushMessage hok
  | promptEntry text => exact h.pushPromptEntry hok

end Agreement

def unsavedSession : Session := { new 1 "s".toList with persistence := some [] }

end ClawCode
