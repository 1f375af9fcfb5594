import Mathlib.Data.List.Induction
import MathTokens.Editor

/-!
# Sessions of an editor

A session is the notifications of an editor in turn. The workspace holds the text that was sent last for
each document, so what is published on a notification is told by the texts sent for its document alone:
no other document and no earlier text has a part in it.
-/

namespace MathTokens

namespace Notification

def uri : Notification → Text
  | opened uri _ => uri
  | changed uri _ => uri

def texts : Notification → List Text
  | opened _ text => [text]
  | changed _ texts => texts

def document (n : Notification) : Text :=
  Workspace.documentOf n.uri

/-- The text that was sent last for a document. -/
def latest? (document : Text) (ns : List Notification) : Option Text :=
  ((ns.filter (·.document = document)).flatMap texts).getLast?

/-- Documents are opened before they are changed. -/
def Orderly (ns : List Notification) : Prop :=
  ∀ before uri texts after, ns = before ++ changed uri texts :: after →
    ∃ uri' text, opened uri' text ∈ before ∧ Workspace.documentOf uri' = Workspace.documentOf uri

end Notification

namespace Workspace

/-- What is published in a session, and the workspace after it. -/
def session (w : Workspace) : List Notification → List Publication × Workspace
  | [] => ([], w)
  | n :: ns => ((w.notify n).1 :: (session (w.notify n).2 ns).1, (session (w.notify n).2 ns).2)

/-- What an editor shows of a document: what was published last for its URI. -/
def shown (ps : List Publication) (uri : Text) : List Diagnostic :=
  (((ps.filter (·.uri = uri)).getLast?).map (·.diagnostics)).getD []

/-! ## One notification -/

section
variable {w : Workspace} {n : Notification} {uri text document : Text}

theorem lookup_setText : (w.setText uri text).lookup document =
    if document = documentOf uri then some text else w.lookup document := by
  unfold setText
  rw [List.lookup_cons]
  by_cases h : document = documentOf uri
  · rw [if_pos h, beq_iff_eq.mpr h]
  · rw [if_neg h, beq_eq_false_iff_ne.mpr h]
    induction w with
    | nil => rfl
    | cons entry w ih =>
      obtain ⟨name, old⟩ := entry
      by_cases hname : name = documentOf uri
      · simpa [List.filter_cons, hname, List.lookup_cons, beq_eq_false_iff_ne.mpr h] using ih
      · simp only [List.filter_cons, hname, ne_eq, not_false_eq_true, decide_true, if_true,
          List.lookup_cons, ih]

theorem notify_eq (w : Workspace) (n : Notification) :
    (w.notify n).2 = n.texts.foldl (fun w text => w.setText n.uri text) w ∧
      (w.notify n).1 = (w.notify n).2.publication n.uri := by
  cases n <;> exact ⟨rfl, rfl⟩

theorem lookup_foldl_setText (texts : List Text) :
    (texts.foldl (fun w text => w.setText uri text) w).lookup document =
      if document = documentOf uri then texts.getLast?.or (w.lookup document) else w.lookup document := by
  induction texts generalizing w with
  | nil => split <;> rfl
  | cons text texts ih =>
    rw [List.foldl_cons, ih, lookup_setText]
    by_cases h : document = documentOf uri
    · simp only [if_pos h]
      cases texts with
      | nil => rfl
      | cons => simp [List.getLast?_cons]
    · simp only [if_neg h]

theorem lookup_notify : (w.notify n).2.lookup document =
    if n.document = document then n.texts.getLast?.or (w.lookup document) else w.lookup document := by
  rw [(notify_eq w n).1, lookup_foldl_setText]
  simp only [Notification.document, eq_comm]

end

/-! ## Sessions -/

section
variable {w : Workspace} {ns ms before after : List Notification} {n : Notification}
  {document text : Text}

theorem session_append (w : Workspace) (ns ms : List Notification) :
    w.session (ns ++ ms) =
      ((w.session ns).1 ++ ((w.session ns).2.session ms).1, ((w.session ns).2.session ms).2) := by
  induction ns generalizing w with
  | nil => rfl
  | cons n ns ih =>
    rw [List.cons_append, session, ih]
    rfl

theorem session_concat (w : Workspace) (ns : List Notification) (n : Notification) :
    w.session (ns ++ [n]) =
      ((w.session ns).1 ++ [((w.session ns).2.notify n).1], ((w.session ns).2.notify n).2) :=
  session_append w ns [n]

theorem map_uri_session (w : Workspace) (ns : List Notification) :
    (w.session ns).1.map (·.uri) = ns.map (·.uri) := by
  induction ns generalizing w with
  | nil => rfl
  | cons n ns ih =>
    rw [session, List.map_cons, List.map_cons, ih, (notify_eq w n).2]
    rfl

theorem length_session (w : Workspace) (ns : List Notification) :
    (w.session ns).1.length = ns.length := by
  simpa using congrArg List.length (map_uri_session w ns)

theorem latest?_concat : Notification.latest? document (ns ++ [n]) =
    if n.document = document then n.texts.getLast?.or (Notification.latest? document ns)
    else Notification.latest? document ns := by
  unfold Notification.latest?
  rw [List.filter_append, List.flatMap_append]
  by_cases h : n.document = document
  · simp [h]
  · simp [h]

theorem lookup_session (ns : List Notification) (document : Text) :
    (session [] ns).2.lookup document = Notification.latest? document ns := by
  induction ns using List.reverseRecOn with
  | nil => rfl
  | append_singleton ns n ih => rw [session_concat, lookup_notify, latest?_concat, ih]

theorem notify_session (h : Notification.latest? n.document (ns ++ [n]) = some text) :
    ((session [] ns).2.notify n).1 = ⟨n.uri, Diagnostic.listOf text⟩ := by
  rw [← lookup_session, session_concat] at h
  rw [(notify_eq _ n).2, publication, textOf]
  rw [Notification.document] at h
  rw [h]
  rfl

theorem getElem?_session (h : Notification.latest? n.document (before ++ [n]) = some text) :
    (session [] (before ++ n :: after)).1[before.length]? = some ⟨n.uri, Diagnostic.listOf text⟩ := by
  have hlength := length_session [] before
  rw [session_append, List.getElem?_append_right (Nat.le_of_eq hlength), hlength, Nat.sub_self, session,
    notify_session h]
  rfl

theorem shown_session (h : Notification.latest? n.document (before ++ [n]) = some text) :
    shown (session [] (before ++ [n])).1 n.uri = Diagnostic.listOf text := by
  rw [session_concat, notify_session h, shown, List.filter_append]
  simp

/-! ## Orderly sessions -/

theorem latest?_isSome_of_mem {n : Notification} (h : n ∈ ns) (htexts : n.texts ≠ []) :
    (Notification.latest? n.document ns).isSome := by
  have hne : (ns.filter (·.document = n.document)).flatMap Notification.texts ≠ [] := by
    intro hnil
    exact htexts (List.flatMap_eq_nil_iff.mp hnil n (List.mem_filter.mpr ⟨h, by simp⟩))
  exact List.getLast?_isSome.mpr hne

theorem exists_latest (h : Notification.Orderly ns) (hns : ns = before ++ n :: after) :
    ∃ text, Notification.latest? n.document (before ++ [n]) = some text := by
  refine Option.isSome_iff_exists.mp ?_
  cases n with
  | opened uri text => exact latest?_isSome_of_mem (by simp) (List.cons_ne_nil _ _)
  | changed uri texts =>
    obtain ⟨uri', text, hmem, hdocument⟩ := h before uri texts after hns
    have hmem' : .opened uri' text ∈ before ++ [.changed uri texts] := List.mem_append_left _ hmem
    have hsome := latest?_isSome_of_mem hmem' (List.cons_ne_nil _ _)
    have hsame : (Notification.opened uri' text).document = (Notification.changed uri texts).document :=
      hdocument
    rwa [hsame] at hsome

end

end Workspace

namespace Diagnostic

variable {text : Text}

theorem listOf_eq_nil_iff : listOf text = [] ↔ ∃ ts, Token.listOf text = .ok ts := by
  unfold listOf
  cases Token.listOf text <;> simp

theorem listOf_of_error {e : Malformed} (h : Token.listOf text = .error e) :
    listOf text = [⟨e.place.line - 1, e.place.column - 1, e.place.column, e.cause.message, 1,
      About.program⟩] := by
  rw [listOf, h]
  rfl

end Diagnostic

/-- **Sessions.** Each notification publishes once, to its own URI: nothing if the text sent last for its
document has tokens, or else one error where it has not. So sessions that end with the same text show the
same, and a document whose text has become well-formed shows nothing. -/
theorem Workspace.session_publishes_latest {ns : List Notification} (h : Notification.Orderly ns) :
    let published := (session [] ns).1
    published.map (·.uri) = ns.map (·.uri) ∧
      (∀ (before : List Notification) (n : Notification) (after : List Notification),
        ns = before ++ n :: after →
        ∃ (text : Text) (p : Publication), Notification.latest? n.document (before ++ [n]) = some text ∧
          published[before.length]? = some p ∧ p.uri = n.uri ∧
          (p.diagnostics = [] ↔ ∃ ts, Token.listOf text = .ok ts) ∧
          ∀ e, Token.listOf text = .error e →
            p.diagnostics = [⟨e.place.line - 1, e.place.column - 1, e.place.column, e.cause.message, 1,
              About.program⟩]) ∧
      (∀ (before ns' before' : List Notification) (n n' : Notification),
        ns = before ++ [n] → Notification.Orderly ns' → ns' = before' ++ [n'] →
        Notification.latest? n.document ns = Notification.latest? n'.document ns' →
        shown published n.uri = shown (session [] ns').1 n'.uri) ∧
      ∀ (before : List Notification) (n : Notification) (text : Text) (ts : List Token),
        ns = before ++ [n] → Notification.latest? n.document ns = some text →
        Token.listOf text = .ok ts → shown published n.uri = [] := by
  intro published
  refine ⟨map_uri_session [] ns, ?_, ?_, ?_⟩
  · intro before n after hns
    obtain ⟨text, htext⟩ := exists_latest h hns
    refine ⟨text, ⟨n.uri, Diagnostic.listOf text⟩, htext, ?_, rfl, Diagnostic.listOf_eq_nil_iff,
      fun e he => Diagnostic.listOf_of_error he⟩
    rw [show published = (session [] (before ++ n :: after)).1 by rw [← hns]]
    exact getElem?_session htext
  · intro before ns' before' n n' hns h' hns' hlatest
    obtain ⟨text, htext⟩ := exists_latest h hns
    subst hns hns'
    rw [shown_session htext, shown_session (hlatest.symm.trans htext)]
  · intro before n text ts hns htext hts
    subst hns
    rw [shown_session htext]
    exact Diagnostic.listOf_eq_nil_iff.mpr ⟨ts, hts⟩

/-- A document becomes well-formed by the second of two texts, while another one is malformed. -/
theorem Workspace.session_publishes_latest_cleared :
    let ns : List Notification :=
      [.opened ['u'] ['"'], .opened ['v'] [' ', '"'], .changed ['u'] [['x', '"', ' ', '"'], ['x']]]
    let other : List Notification := [.opened ['w'] ['x']]
    let published := (session [] ns).1
    Notification.Orderly ns ∧ Notification.Orderly other ∧
      published.map (·.uri) = [['u'], ['v'], ['u']] ∧
      (∃ p, published[1]? = some p ∧
        p.diagnostics = [⟨0, 1, 2, Cause.unterminatedString.message, 1, About.program⟩]) ∧
      shown published ['u'] = [] ∧ shown published ['u'] = shown (session [] other).1 ['w'] := by
  intro ns other published
  have hns : Notification.Orderly ns := by
    intro before uri texts after h
    rcases before with _ | ⟨_, _ | ⟨_, _ | ⟨_, before⟩⟩⟩
    · simp [ns] at h
    · simp [ns] at h
    · simp only [ns, List.cons_append, List.nil_append, List.cons.injEq] at h
      obtain ⟨rfl, rfl, h, -⟩ := h
      cases h
      exact ⟨['u'], ['"'], by simp, rfl⟩
    · simp [ns] at h
  have hother : Notification.Orderly other := by
    intro before uri texts after h
    rcases before with _ | ⟨_, before⟩
    · simp [other] at h
    · simp [other] at h
  obtain ⟨huris, hpublished, hsame, hcleared⟩ := session_publishes_latest hns
  have hlatest : Notification.latest? ['u'] ns = some ['x'] := by decide +kernel
  have hx : Token.listOf ['x'] = .ok [⟨.name ['x'], ['x'], ⟨1, 1, 0⟩, ⟨1, 2, 1⟩⟩] := by decide +kernel
  have hquote : Token.listOf [' ', '"'] = .error ⟨.unterminatedString, ⟨1, 2, 1⟩, [' ', '"']⟩ := by
    decide +kernel
  let n : Notification := .changed ['u'] [['x', '"', ' ', '"'], ['x']]
  have hlast : ns = [.opened ['u'] ['"'], .opened ['v'] [' ', '"']] ++ [n] := rfl
  obtain ⟨text, p, htext, hp, -, -, herror⟩ := hpublished [.opened ['u'] ['"']] _ _ rfl
  obtain rfl : [' ', '"'] = text := Option.some.inj (Eq.trans (by decide +kernel) htext)
  refine ⟨hns, hother, huris, ⟨p, hp, herror _ hquote⟩, hcleared _ n ['x'] _ hlast hlatest hx, ?_⟩
  exact hsame _ other [] n _ hlast hother rfl (by decide +kernel)

end MathTokens
