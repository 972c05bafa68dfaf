import DocComments.Checkout
import DocComments.Proofs.Files.Names
import DocComments.Proofs.Run.Exhaustion
import DocComments.Proofs.Run.Frame
import DocComments.Proofs.Text.Utf8

/-!
# Files of a directory tree

What is asked of the files and the models of a run holds on a host with a directory tree. Files that
are there can be written and keep what is written (`Outside.OnTree.stores`), and two paths without a
step up that have different names in them are apart (`Outside.OnTree.apart`). Models that are asked
over a connection that does not touch the tree leave its files alone (`Host.callsLeave_outside`).
-/

set_option autoImplicit false

namespace DocComments

/-! ## Names in a path -/

/-- A path without a step up leads to the names that stand in it, if it leads anywhere. -/
theorem FileEntry.locate_eq_names {top : FileEntry} {p : Path} {names : List Text}
    (hup : ['.', '.'] ∉ Path.pieces p) (h : top.locate p = .ok names) :
    names = Checkout.names p := by
  rw [locate_eq_resolve h, Path.resolve_eq_foldl_pieces, Path.filterMap_step?_of_up_not_mem hup,
    Path.foldl_follow_map_entry]
  rfl

namespace Path

/-- Two texts for one path have the same names in them. -/
theorem names_eq_of_same {p q : Path} (hp : ['.', '.'] ∉ pieces p)
    (hq : ['.', '.'] ∉ pieces q) (h : same p q = true) : Checkout.names p = Checkout.names q := by
  have hcomponents : p.components = q.components := eq_of_beq h
  refine List.map_injective_iff.mpr (fun _ _ => Component.entry.inj) ?_
  rw [Checkout.names, Checkout.names, ← filterMap_step?_of_up_not_mem hp,
    ← filterMap_step?_of_up_not_mem hq, ← filter_components, ← filter_components, hcomponents]

end Path

/-! ## Files of a tree -/

namespace Outside

variable {σ : Type} (out : Outside σ)

/-- The files outside are those of a directory tree. -/
structure OnTree (tree : σ → FileEntry) : Prop where
  find : ∀ p s, out.find p s = (tree s).find p
  write : ∀ p t s top, (tree s).write p (Utf8.encode t) = .ok top →
    (out.write p t s).1 = .ok () ∧ tree (out.write p t s).2 = top

namespace OnTree

variable {out} {tree : σ → FileEntry}

/-- A file that is there is written where its names lead. -/
theorem exists_names (h : out.OnTree tree) {file : Path} {s : σ} {bytes : ByteArray}
    (hthere : out.find file s = .ok (.file bytes)) :
    ∃ names, (tree s).locate file = .ok names ∧ (tree s).at? names = some (.file bytes) ∧
      ∀ t, (out.write file t s).1 = .ok () ∧
        tree (out.write file t s).2 = .put (.file (Utf8.encode t)) names (tree s) := by
  rw [h.find] at hthere
  obtain ⟨names, hlocate, hat⟩ := FileEntry.exists_names_of_find hthere
  exact ⟨names, hlocate, hat, fun t =>
    h.write file t s _ (FileEntry.write_of_locate hlocate hat (Utf8.encode t))⟩

/-- A file that is there denotes what is written into it. -/
theorem find_write (h : out.OnTree tree) {file : Path} {s : σ} {bytes : ByteArray}
    (hthere : out.find file s = .ok (.file bytes)) (t : Text) :
    (out.write file t s).1 = .ok () ∧
      out.find file (out.write file t s).2 = .ok (.file (Utf8.encode t)) := by
  obtain ⟨names, hlocate, hat, hwrite⟩ := h.exists_names hthere
  refine ⟨(hwrite t).1, ?_⟩
  rw [h.find, (hwrite t).2, FileEntry.find_put_self _ hat hlocate]

theorem writable (h : out.OnTree tree) (file : Path) : out.Writable file :=
  fun t _ _ hthere => (h.find_write hthere t).1

/-- What is written into a file is kept. -/
theorem stores (h : out.OnTree tree) (file : Path) : out.Stores file :=
  fun t _ _ hthere _ => ⟨_, (h.find_write hthere t).2, Utf8.decode_encode t⟩

/-- What a write comes to hangs on its file alone. -/
theorem writesLocally (h : out.OnTree tree) (file : Path) : out.WritesLocally file := by
  intro text s t bytes hs ht
  obtain ⟨hresultS, hfindS⟩ := h.find_write hs text
  obtain ⟨hresultT, hfindT⟩ := h.find_write ht text
  exact ⟨hresultS.trans hresultT.symm, Outside.seen_congr (hfindS.trans hfindT.symm)⟩

/-- A write does not reach a path that never leads to the same names. -/
theorem writeLeaves (h : out.OnTree tree) {written file : Path}
    (hother : ∀ s names, (tree s).locate written = .ok names → (tree s).locate file ≠ .ok names) :
    out.WriteLeaves written file := by
  intro t s bytes hthere
  obtain ⟨names, hlocate, hat, hwrite⟩ := h.exists_names hthere
  unfold seen
  rw [h.find, h.find, (hwrite t).2]
  exact FileEntry.find_put_of_ne (fun _ _ => rfl) _ hat (hother s names hlocate)

/-- Paths without a step up that have different names in them are apart. -/
theorem apart (h : out.OnTree tree) {f g : Path} (hf : ['.', '.'] ∉ Path.pieces f)
    (hg : ['.', '.'] ∉ Path.pieces g) (hnames : Checkout.names f ≠ Checkout.names g) :
    out.Apart f g := by
  have hother : ∀ {p q : Path}, ['.', '.'] ∉ Path.pieces p → ['.', '.'] ∉ Path.pieces q →
      Checkout.names p ≠ Checkout.names q → ∀ s names, (tree s).locate p = .ok names →
        (tree s).locate q ≠ .ok names := by
    intro p q hp hq hne s names hlocate heq
    exact hne ((FileEntry.locate_eq_names hp hlocate).symm.trans
      (FileEntry.locate_eq_names hq heq))
  refine ⟨?_, h.writeLeaves (hother hf hg hnames), h.writeLeaves (hother hg hf hnames.symm)⟩
  exact Bool.eq_false_iff.mpr fun hsame => hnames (Path.names_eq_of_same hf hg hsame)

end OnTree

end Outside

/-! ## Hosts -/

namespace Transport

variable {σ τ α : Type} {send : Transport σ}

theorem complete_eq (send : Transport σ) (r : ChatRequest) (s : σ) :
    send.complete r s
      = ((send r s).1.elim (.error .dropped) ChatReply.completion, (send r s).2) := by
  unfold complete
  rcases send r s with ⟨reply, state⟩
  cases reply <;> rfl

/-- A call sends one request and reads nothing but the reply, or it sends none. -/
def Serves (send : Transport σ) (call : σ → Except ModelError α × σ) : Prop :=
  (∃ answer, ∀ s, call s = (answer, s)) ∨
    ∃ r, ∃ read : Except ModelError Completion → Except ModelError α,
      ∀ s, call s = (read (send.complete r s).1, (send.complete r s).2)

namespace Serves

variable {call : σ → Except ModelError α × σ} {f : σ → τ}

/-- What no request changes, no call changes. -/
theorem leaves (h : send.Serves call) (hsend : ∀ r s, f (send r s).2 = f s) (s : σ) :
    f (call s).2 = f s := by
  obtain ⟨answer, hcall⟩ | ⟨r, read, hcall⟩ := h
  · rw [hcall]
  · rw [hcall, complete_eq]
    exact hsend r s

/-- A call comes to the same where requests do. -/
theorem congr (h : send.Serves call)
    (hsend : ∀ r {s t}, f s = f t → (send r s).1 = (send r t).1 ∧ f (send r s).2 = f (send r t).2)
    {s t : σ} (hst : f s = f t) : (call s).1 = (call t).1 ∧ f (call s).2 = f (call t).2 := by
  obtain ⟨answer, hcall⟩ | ⟨r, read, hcall⟩ := h
  · rw [hcall, hcall]
    exact ⟨rfl, hst⟩
  · obtain ⟨hreply, hnext⟩ := hsend r hst
    rw [hcall, hcall, complete_eq, complete_eq, hreply]
    exact ⟨rfl, hnext⟩

end Serves

end Transport

namespace Host

variable {σ τ : Type} (h : Host σ) (c : Config)

theorem serves_draft (r : DraftRequest) : h.send.Serves ((h.outside c).models.draft r) := by
  unfold outside Models.ofConfig Models.chat
  cases c.mock with
  | true => exact .inl ⟨_, fun _ => rfl⟩
  | false => exact .inr ⟨_, Except.map _, fun _ => rfl⟩

theorem serves_judge (q : Question) : h.send.Serves ((h.outside c).models.judge q) := by
  unfold outside Models.ofConfig Models.chat
  cases c.mock with
  | true => exact .inl ⟨_, fun _ => rfl⟩
  | false => exact .inr ⟨_, Except.map _, fun _ => rfl⟩

/-- Models that are asked over a connection that does not touch the tree leave every file alone. -/
theorem callsLeave_outside (hsend : ∀ r s, h.tree (h.send r s).2 = h.tree s) (file : Path) :
    (h.outside c).CallsLeave file := by
  have hfind : ∀ {s t : σ}, h.tree s = h.tree t →
      (h.outside c).find file s = (h.outside c).find file t :=
    fun heq => congrArg (·.find file) heq
  exact ⟨fun r s => hfind ((h.serves_draft c r).leaves hsend s),
    fun q s => hfind ((h.serves_judge c q).leaves hsend s)⟩

/-- The models go by the script that their connection goes by. -/
theorem scripted_outside {script : σ → τ}
    (hsend : ∀ r {s t}, script s = script t → (h.send r s).1 = (h.send r t).1 ∧
      script (h.send r s).2 = script (h.send r t).2)
    (hwrite : ∀ file t s, script (h.write file t s).2 = script s) :
    (h.outside c).Scripted script :=
  ⟨fun r _ _ => (h.serves_draft c r).congr hsend, fun q _ _ => (h.serves_judge c q).congr hsend,
    hwrite⟩

/-- What the models answer hangs on the request, if what a connection gives back does. -/
theorem answersByRequest_outside (hsend : ∀ r s t, (h.send r s).1 = (h.send r t).1) :
    (h.outside c).AnswersByRequest := by
  have hscripted : (h.outside c).Scripted fun _ => () :=
    h.scripted_outside c (fun r s t _ => ⟨hsend r s t, rfl⟩) fun _ _ _ => rfl
  exact ⟨fun r _ _ => (hscripted.draft r rfl).1, fun q _ _ => (hscripted.judge q rfl).1⟩

/-- The host with a connection that gives back one reply after the other. -/
def replaying (h : Host σ) : Host (σ × List ChatReply) where
  environment := h.environment
  working := h.working
  tree s := h.tree s.1
  write p t s := ((h.write p t s.1).1, (h.write p t s.1).2, s.2)
  tokenizer := h.tokenizer
  parse := h.parse
  send _ s := (s.2.head?, s.1, s.2.tail)

variable {h c} in
theorem onTree_replaying (htree : (h.outside c).OnTree h.tree) :
    (h.replaying.outside c).OnTree h.replaying.tree :=
  ⟨fun _ _ => rfl, fun p t s => htree.write p t s.1⟩

theorem callsLeave_replaying (file : Path) : (h.replaying.outside c).CallsLeave file :=
  callsLeave_outside _ c (fun _ _ => rfl) file

theorem scripted_replaying : (h.replaying.outside c).Scripted Prod.snd := by
  apply scripted_outside
  · intro r s t hst
    unfold replaying
    dsimp only
    rw [hst]
    exact ⟨rfl, rfl⟩
  · intro file t s
    rfl

end Host

namespace Checkout

variable (checkout : Checkout) (env : Environment) (c : Config)

/-- On a checkout everything is written into the tree, and no model touches it. -/
theorem onTree_outside_host : ((checkout.host env).outside c).OnTree id := by
  refine ⟨fun _ _ => rfl, fun p t s top hwrite => ?_⟩
  change (write p t s).1 = _ ∧ (write p t s).2 = _
  rw [write, show FileEntry.write s p (Utf8.encode t) = .ok top from hwrite]
  exact ⟨rfl, rfl⟩

theorem callsLeave_outside_host (file : Path) :
    ((checkout.host env).outside c).CallsLeave file :=
  Host.callsLeave_outside _ c (fun _ _ => rfl) file

theorem answersByRequest_outside_host : ((checkout.host env).outside c).AnswersByRequest :=
  Host.answersByRequest_outside _ c fun _ _ _ => rfl

end Checkout

/-! ## Two files with two classes each -/

namespace ClassFile

def pairFiles : FileEntry :=
  Checkout.contents [(path, Utf8.encode pair), (otherPath, Utf8.encode pair)]

def pairHost : Host FileEntry :=
  Checkout.host ⟨[path, otherPath], [⟨.csharp, pair, pairTree⟩]⟩ fun _ => none

theorem apart_of_onTree {σ : Type} {out : Outside σ} {tree : σ → FileEntry}
    (h : out.OnTree tree) : out.Apart path otherPath :=
  h.apart (by decide) (by decide) (by decide)

end ClassFile

end DocComments
