import DocComments.Proofs.Run.Staged
import DocComments.Proofs.Run.Visit

/-!
# What a run depends on, and what it leaves alone

A pass looks at the file that it treats and at nothing else: `Outside.seen` is what it can see
there, and two states in which it sees the same give the same plan (`FilePlan.ofPath_congr`).
Sessions that the models cannot tell apart are taken through the declarations of a file together
(`Treated.coupled_ofPlanned`). Where the models leave a path alone and a write to one file does not
reach another one, a run changes nothing but the files of its jobs (`Progress.seen_work`).
-/

set_option autoImplicit false

namespace DocComments

/-! ## What is seen of a path -/

def FileEntry.outline : FileEntry → FileEntry
  | file bytes => file bytes
  | directory _ => directory []

/-- Reading a source file does not look into a directory. -/
theorem Source.ofEntry_outline (path : Path) (limit : Nat) (found : Except FileError FileEntry) :
    ofEntry path limit (found.map FileEntry.outline) = ofEntry path limit found := by
  rcases found with e | (bytes | entries) <;> rfl

/-- A source that is read is the text of a file. -/
theorem Source.exists_file {path : Path} {limit : Nat} {found : Except FileError FileEntry}
    {source : Text} (h : ofEntry path limit found = .ok source) :
    ∃ bytes, found = .ok (.file bytes) ∧ Utf8.decode bytes = .ok source := by
  rcases found with e | (bytes | entries)
  · cases h
  · refine ⟨bytes, rfl, ?_⟩
    simp only [ofEntry] at h
    split at h
    · cases h
    · split at h
      · cases h
      · cases hdecode : Utf8.decode bytes with
        | error e =>
          rw [hdecode] at h
          cases h
        | ok t =>
          rw [hdecode] at h
          exact congrArg Except.ok (Except.ok.inj h)
  · simp only [ofEntry] at h
    split at h <;> cases h

namespace Outside

variable {σ : Type} (out : Outside σ)

/-- What a path denotes, without what is in a directory. -/
def seen (file : Path) (s : σ) : Except FileError FileEntry :=
  (out.find file s).map FileEntry.outline

variable {out} {file : Path} {s t : σ}

theorem seen_congr (h : out.find file s = out.find file t) : out.seen file s = out.seen file t := by
  rw [seen, seen, h]

theorem find_eq_file_iff {bytes : ByteArray} :
    out.find file s = .ok (.file bytes) ↔ out.seen file s = .ok (.file bytes) := by
  unfold seen
  rcases out.find file s with e | (b | entries) <;> simp [Except.map, FileEntry.outline]

end Outside

/-- What is planned depends on what is seen of the file. -/
theorem FilePlan.ofPath_congr {σ : Type} {out : Outside σ} (c : Config) (pass : Pass) {file : Path}
    {s t : σ} (h : out.seen file s = out.seen file t) :
    ofPath out c pass file s = ofPath out c pass file t := by
  have hsource : Source.ofEntry file c.maxFileSize (out.find file s)
      = Source.ofEntry file c.maxFileSize (out.find file t) := by
    rw [← Source.ofEntry_outline file _ (out.find file s),
      ← Source.ofEntry_outline file _ (out.find file t)]
    exact congrArg (Source.ofEntry file c.maxFileSize) h
  unfold ofPath
  rw [hsource]

/-- A file whose declarations are planned is there. -/
theorem FilePlan.exists_file {σ : Type} {out : Outside σ} {c : Config} {pass : Pass} {file : Path}
    {s : σ} {found : FilePlan} (h : ofPath out c pass file s = .ok found) :
    ∃ bytes, out.find file s = .ok (.file bytes) ∧ Utf8.decode bytes = .ok found.source := by
  unfold ofPath at h
  split at h
  · cases h
  · split at h
    · cases h
    · next source hsource =>
      split at h
      · cases h
      · obtain rfl := Except.ok.inj h
        exact Source.exists_file hsource

/-! ## Files and models by themselves -/

namespace Outside

variable {σ : Type} (out : Outside σ)

/-- The models change nothing at a path. -/
structure CallsLeave (file : Path) : Prop where
  draft : ∀ r s, out.find file (out.models.draft r s).2 = out.find file s
  judge : ∀ q s, out.find file (out.models.judge q s).2 = out.find file s

/-- New bytes in a file that is there change nothing at another path. -/
def WriteLeaves (written file : Path) : Prop :=
  ∀ t s bytes, out.find written s = .ok (.file bytes) →
    out.seen file (out.write written t s).2 = out.seen file s

/-- A file that is there can be written. -/
def Writable (file : Path) : Prop :=
  ∀ t s bytes, out.find file s = .ok (.file bytes) → (out.write file t s).1 = .ok ()

/-- What a write to a file comes to, and what is there behind it, hangs on the file alone. -/
def WritesLocally (file : Path) : Prop :=
  ∀ text s t bytes, out.find file s = .ok (.file bytes) → out.find file t = .ok (.file bytes) →
    (out.write file text s).1 = (out.write file text t).1 ∧
      out.seen file (out.write file text s).2 = out.seen file (out.write file text t).2

/-- A path denotes a file with a text. -/
def Holds (file : Path) (t : Text) (s : σ) : Prop :=
  ∃ bytes, out.find file s = .ok (.file bytes) ∧ Utf8.decode bytes = .ok t

/-- What is written into a file that is there is in the file, unless the write fails. -/
def Stores (file : Path) : Prop :=
  ∀ t s bytes, out.find file s = .ok (.file bytes) → (out.write file t s).1 = .ok () →
    out.Holds file t (out.write file t s).2

/-- Two paths are those of different files, and a write to one of them does not reach the other. -/
structure Apart (f g : Path) : Prop where
  same : Path.same f g = false
  leaves : out.WriteLeaves f g
  left : out.WriteLeaves g f

/-- What the models answer hangs on the request alone. -/
structure AnswersByRequest : Prop where
  draft : ∀ r s t, (out.models.draft r s).1 = (out.models.draft r t).1
  judge : ∀ q s t, (out.models.judge q s).1 = (out.models.judge q t).1

/-- What the models answer hangs on a script, from which nothing is read but by calls. -/
structure Scripted {τ : Type} (script : σ → τ) : Prop where
  draft : ∀ r {s t}, script s = script t →
    (out.models.draft r s).1 = (out.models.draft r t).1 ∧
      script (out.models.draft r s).2 = script (out.models.draft r t).2
  judge : ∀ q {s t}, script s = script t →
    (out.models.judge q s).1 = (out.models.judge q t).1 ∧
      script (out.models.judge q s).2 = script (out.models.judge q t).2
  write : ∀ file t s, script (out.write file t s).2 = script s

variable {out} {file f g : Path} {s t : σ}

theorem Holds.congr {text : Text} (h : out.Holds file text s)
    (hseen : out.seen file t = out.seen file s) : out.Holds file text t := by
  obtain ⟨bytes, hfind, hdecode⟩ := h
  refine ⟨bytes, ?_, hdecode⟩
  rw [find_eq_file_iff] at hfind ⊢
  rw [hseen, hfind]

theorem Apart.symm (h : out.Apart f g) : out.Apart g f :=
  ⟨(Path.same_comm g f).trans h.same, h.left, h.leaves⟩

theorem Apart.ne (h : out.Apart f g) : f ≠ g := by
  rintro rfl
  exact absurd h.same (by simp [Path.same])

end Outside

/-! ## Sessions that go on alike -/

/-- Sessions that the models cannot tell apart: they answer the same, and what they leave they
cannot tell apart either. -/
structure Session.Coupling {σ : Type} (out : Outside σ) (R : Session σ → Session σ → Prop) :
    Prop where
  draft : ∀ r {s t}, R s t →
    (s.draft out r).1 = (t.draft out r).1 ∧ R (s.draft out r).2 (t.draft out r).2
  judge : ∀ q {s t}, R s t →
    (s.judge out q).1 = (t.judge out q).1 ∧ R (s.judge out q).2 (t.judge out q).2

section Coupled

variable {σ : Type} {out : Outside σ} {R : Session σ → Session σ → Prop} {s t : Session σ}

namespace Treatment

variable (c : Config) (style : CommentStyle) (pass : Pass) (source : Text) (p : Planned)

theorem coupled_judged (hR : Session.Coupling out R) (drafting : Usage) (comment : Comment)
    (hst : R s t) :
    (judged out c style pass p drafting comment s).1
        = (judged out c style pass p drafting comment t).1 ∧
      R (judged out c style pass p drafting comment s).2
        (judged out c style pass p drafting comment t).2 := by
  obtain ⟨hanswer, hnext⟩ := hR.judge (pass.question style out.tokenizer c p comment) hst
  unfold judged
  rcases hs : s.judge out (pass.question style out.tokenizer c p comment) with ⟨answer, s'⟩
  rcases ht : t.judge out (pass.question style out.tokenizer c p comment) with ⟨answer', t'⟩
  rw [hs, ht] at hanswer hnext
  obtain rfl : answer = answer' := hanswer
  cases answer with
  | error e => exact ⟨rfl, hnext⟩
  | ok v =>
    dsimp only
    split
    · exact ⟨rfl, hnext⟩
    · exact ⟨rfl, hnext⟩

theorem coupled_ofDraft (hR : Session.Coupling out R) (d : Draft) (hst : R s t) :
    (ofDraft out c style pass p d s).1 = (ofDraft out c style pass p d t).1 ∧
      R (ofDraft out c style pass p d s).2 (ofDraft out c style pass p d t).2 := by
  unfold ofDraft
  split
  · exact ⟨rfl, hst⟩
  · split
    · exact ⟨rfl, hst⟩
    · split
      · exact coupled_judged c style pass p hR d.usage _ hst
      · exact ⟨rfl, hst⟩

/-- The same becomes of a declaration. -/
theorem coupled_ofPlanned (hR : Session.Coupling out R) (hst : R s t) :
    (ofPlanned out c style pass source p s).1 = (ofPlanned out c style pass source p t).1 ∧
      R (ofPlanned out c style pass source p s).2 (ofPlanned out c style pass source p t).2 := by
  obtain ⟨hanswer, hnext⟩ := hR.draft (pass.draftRequest style c source p) hst
  unfold ofPlanned
  rcases hs : s.draft out (pass.draftRequest style c source p) with ⟨answer, s'⟩
  rcases ht : t.draft out (pass.draftRequest style c source p) with ⟨answer', t'⟩
  rw [hs, ht] at hanswer hnext
  obtain rfl : answer = answer' := hanswer
  cases answer with
  | error e => exact ⟨rfl, hnext⟩
  | ok d => exact coupled_ofDraft c style pass p hR d hnext

end Treatment

/-- The same is staged and the same is left out. -/
theorem Treated.coupled_ofPlanned (hR : Session.Coupling out R) (c : Config) (style : CommentStyle)
    (source : Text) (budget : Budget) (planned : List Planned) (w : Staging) (hst : R s t) :
    (ofPlanned out c style source budget planned w s).staging
        = (ofPlanned out c style source budget planned w t).staging ∧
      (ofPlanned out c style source budget planned w s).left
        = (ofPlanned out c style source budget planned w t).left ∧
      R (ofPlanned out c style source budget planned w s).session
        (ofPlanned out c style source budget planned w t).session := by
  induction planned generalizing w s t with
  | nil => exact ⟨rfl, rfl, hst⟩
  | cons p ps ih =>
    obtain ⟨htreatment, hnext⟩ :=
      Treatment.coupled_ofPlanned c style w.report.pass source p hR hst
    unfold ofPlanned
    dsimp only
    -- what is allowed hangs on the budget and on what is staged, the same for both sessions
    split
    · rw [htreatment]
      exact ih _ hnext
    · exact ⟨rfl, rfl, hst⟩

end Coupled

/-! ## What a run leaves alone -/

section Leaves

variable {σ : Type} {out : Outside σ} {c : Config} {file : Path}

/-- A session is coupled with itself, together with what the models leave alone. -/
theorem Session.coupling_find (h : out.CallsLeave file) (found : Except FileError FileEntry) :
    Coupling out fun s t => s = t ∧ out.find file s.outside = found where
  draft r s t := by
    rintro ⟨rfl, hs⟩
    exact ⟨rfl, rfl, (h.draft r s.outside).trans hs⟩
  judge q s t := by
    rintro ⟨rfl, hs⟩
    exact ⟨rfl, rfl, (h.judge q s.outside).trans hs⟩

/-- The treatment of declarations changes nothing where the models change nothing. -/
theorem Treated.find_ofPlanned (h : out.CallsLeave file) (style : CommentStyle) (source : Text)
    (budget : Budget) (planned : List Planned) (w : Staging) (s : Session σ) :
    out.find file (ofPlanned out c style source budget planned w s).session.outside
      = out.find file s.outside :=
  (coupled_ofPlanned (Session.coupling_find h _) c style source budget planned w
    ⟨rfl, rfl⟩).2.2.2

/-- A commit changes nothing where a write changes nothing. -/
theorem Staging.seen_commit {source : Text} {w : Staging} {s : Session σ} {bytes : ByteArray}
    (hwrite : out.WriteLeaves w.report.file file)
    (hthere : out.find w.report.file s.outside = .ok (.file bytes)) :
    out.seen file (w.commit out c source s).2.outside = out.seen file s.outside := by
  rcases Staging.outside_commit out c source w s with hsame | ⟨t, hwritten⟩
  · rw [hsame]
  · rw [hwritten]
    exact hwrite t s.outside bytes hthere

/-- A pass changes nothing but its file. -/
theorem FilePass.seen_ofPath {written : Path} (hwritten : out.CallsLeave written)
    (hfile : out.CallsLeave file) (hwrite : out.WriteLeaves written file) (pass : Pass)
    (budget : Budget) (s : Session σ) :
    out.seen file (ofPath out c pass written budget s).session.outside
      = out.seen file s.outside := by
  cases hplan : FilePlan.ofPath out c pass written s.outside with
  | error e => rw [ofPath, hplan]
  | ok found =>
    obtain ⟨bytes, hthere, -⟩ := FilePlan.exists_file hplan
    have hname := file_staging out c found pass written budget s
    rw [ofPath_of_plan hplan, (ofPlan_eq out c pass written found budget s rfl).2]
    have hstill : out.find written (Treated.ofPlanned out c found.style found.source budget
        found.planned (.start written pass) s).session.outside = .ok (.file bytes) :=
      (Treated.find_ofPlanned hwritten _ _ _ _ _ s).trans hthere
    generalize htreated : Treated.ofPlanned out c found.style found.source budget found.planned
      (.start written pass) s = treated at *
    calc out.seen file (treated.staging.commit out c found.source treated.session).2.outside
        = out.seen file treated.session.outside :=
          Staging.seen_commit (by rwa [hname]) (by rwa [hname])
      _ = out.seen file s.outside :=
          Outside.seen_congr (htreated ▸ Treated.find_ofPlanned hfile _ _ _ _ _ s)

namespace Progress

variable {failed : Option Path} {jobs : List Job} {p : Progress σ}

/-- What every pass over the files of some jobs keeps, a run over the jobs keeps. -/
theorem keeps_work {P : σ → Prop}
    (hpass : ∀ job ∈ jobs, ∀ budget (s : Session σ), P s.outside →
      P (FilePass.ofPath out c job.pass job.file budget s).session.outside)
    (hp : P p.session.outside) :
    (∀ v ∈ visits out c failed jobs p, P v.before.session.outside) ∧
      P (work out c failed jobs p).session.outside := by
  revert hpass hp
  refine induction_visits (motive := fun jobs p vs q => (∀ job ∈ jobs, ∀ budget (s : Session σ),
      P s.outside → P (FilePass.ofPath out c job.pass job.file budget s).session.outside) →
    P p.session.outside →
    (∀ v ∈ vs, P v.before.session.outside) ∧ P q.session.outside) failed jobs p ?_ ?_ ?_ ?_ ?_
  · exact fun p _ hp => ⟨fun _ hv => absurd hv List.not_mem_nil, hp⟩
  · intro job jobs p vs q ih hpass hp
    obtain ⟨hbefore, hend⟩ := ih (List.forall_mem_cons.mp hpass).2 hp
    exact ⟨List.forall_mem_cons.mpr ⟨hp, hbefore⟩, hend⟩
  · intro jobs p _ _ hp
    refine ⟨fun v hv => ?_, ?_⟩
    · obtain ⟨job, -, rfl⟩ := List.mem_map.mp hv
      exact hp
    · unfold stop
      split <;> exact hp
  · intro job jobs p done hdone _ hpass hp
    refine ⟨fun v hv => ?_, ?_⟩
    · rw [List.mem_singleton.mp hv]
      exact hp
    · subst hdone
      exact hpass job List.mem_cons_self _ _ hp
  · intro job jobs p done vs q hdone _ ih hpass hp
    obtain ⟨hjob, hjobs⟩ := List.forall_mem_cons.mp hpass
    subst hdone
    obtain ⟨hbefore, hend⟩ := ih hjobs (hjob _ _ hp)
    exact ⟨List.forall_mem_cons.mpr ⟨hp, hbefore⟩, hend⟩

/-- A run changes nothing but the files of its jobs. -/
theorem seen_work (hjobs : ∀ job ∈ jobs, out.CallsLeave job.file ∧ out.WriteLeaves job.file file)
    (hfile : out.CallsLeave file) :
    (∀ v ∈ visits out c failed jobs p,
        out.seen file v.before.session.outside = out.seen file p.session.outside) ∧
      out.seen file (work out c failed jobs p).session.outside
        = out.seen file p.session.outside := by
  refine keeps_work (P := fun s => out.seen file s = out.seen file p.session.outside)
    (fun job hjob budget s hs => ?_) rfl
  obtain ⟨hcalls, hwrite⟩ := hjobs job hjob
  rw [FilePass.seen_ofPath hcalls hfile hwrite, hs]

end Progress

end Leaves

/-! ## Texts under paths -/

/-- A text under every path. -/
structure Shelf where
  texts : Path → Text

namespace Shelf

/-- Texts that can be read and written, and a model that always drafts the same. -/
def outside (parse : Text → Tree) (reply : Text) : Outside Shelf where
  tokenizer := .estimate
  parse _ source := parse source
  find p s := .ok (.file (Utf8.encode (s.texts p)))
  write p t s := (.ok (), ⟨fun q => if q = p then t else s.texts q⟩)
  models := { Models.placeholder with draft := fun _ s => (.ok ⟨reply, .zero⟩, s) }

variable (parse : Text → Tree) (reply : Text)

theorem callsLeave_outside (file : Path) : (outside parse reply).CallsLeave file :=
  ⟨fun _ _ => rfl, fun _ _ => rfl⟩

theorem writeLeaves_outside {written file : Path} (h : file ≠ written) :
    (outside parse reply).WriteLeaves written file := by
  intro t s bytes _
  unfold Outside.seen outside
  dsimp only
  rw [if_neg h]

end Shelf

def ClassFile.otherPath : Path := "b.cs".toList

theorem ClassFile.ofPath?_otherPath : Language.ofPath? otherPath = some .csharp := by
  decide +kernel

end DocComments
