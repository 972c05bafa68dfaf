import DocComments.Proofs.Run.Batch
import DocComments.Proofs.Run.Pass

/-!
# What an update does to a file

An update treats declarations one after the other. `Treated.renewals` lists those whose new comment
is accepted, whatever the models answer and wherever the budget ends. Their comments are apart, so
that no batch is ever given up for an overlap (`holds_ofPlanned`), and what is committed is the
source with the comments of these declarations replaced (`update_replaces_comments`). As any commit
it comes to nothing if the diff has a reversed hunk; `update_without_text_form` is such an update.
-/

set_option autoImplicit false

namespace DocComments

open Edit (InOrder weave)

/-! ## One declaration -/

namespace Treatment

variable {σ : Type}

/-- The comment that the reply for an update makes, whatever becomes of it. -/
def synthesized? (out : Outside σ) (c : Config) (style : CommentStyle) (source : Text)
    (p : Planned) (s : Session σ) : Option Comment :=
  match (s.draft out (Pass.update.draftRequest style c source p)).1 with
  | .ok d => some (Comment.ofReply style d.text p.anchor)
  | .error _ => none

/-- The declaration with its new comment, if an update accepts it. -/
def renewal? (out : Outside σ) (c : Config) (style : CommentStyle) (source : Text) (p : Planned)
    (s : Session σ) : Option Renewal :=
  match (ofPlanned out c style .update source p s).1.outcome with
  | .accepted _ => (synthesized? out c style source p s).map (Renewal.mk p)
  | _ => none

/-- An accepted batch brings in the comment that the reply makes. -/
theorem exists_renewal?_eq_some {out : Outside σ} {c : Config} {style : CommentStyle}
    {source : Text} {p : Planned} {s : Session σ} {batch : List Edit}
    (h : (ofPlanned out c style .update source p s).1.outcome = .accepted batch) :
    ∃ r, renewal? out c style source p s = some r ∧ r.planned = p ∧ r.batch = batch := by
  obtain ⟨d, comment, hdraft, hcomment, hbatch⟩ := exists_comment?_of_accepted h
  obtain rfl := Pass.eq_ofReply_of_comment?_eq_some hcomment
  refine ⟨⟨p, Comment.ofReply style d.text p.anchor⟩, ?_, rfl, hbatch.symm⟩
  rw [renewal?, h, synthesized?, hdraft]
  rfl

theorem renewal?_eq_none {out : Outside σ} {c : Config} {style : CommentStyle}
    {source : Text} {p : Planned} {s : Session σ}
    (h : ∀ batch, (ofPlanned out c style .update source p s).1.outcome ≠ .accepted batch) :
    renewal? out c style source p s = none := by
  unfold renewal?
  split
  · next batch hbatch => exact absurd hbatch (h batch)
  · rfl

end Treatment

/-! ## Staging -/

namespace PassReport

theorem countAccepted_of_update {r : PassReport} (h : r.pass = .update) :
    r.countAccepted = { r with updated := r.updated + 1 } := by
  unfold countAccepted
  rw [h]

theorem countRefused_of_update {r : PassReport} (h : r.pass = .update) :
    r.countRefused = { r with nits := r.nits + 1 } := by
  unfold countRefused
  rw [h]

end PassReport

namespace Staging

/-- The edits of these declarations are staged, one batch after the other, and nothing else. -/
structure Holds (file : Path) (rs : List Renewal) (w : Staging) : Prop where
  changes : w.changes = ⟨rs.flatMap Renewal.batch⟩
  updated : w.report.updated = rs.length
  pass : w.report.pass = .update
  file : w.report.file = file

theorem holds_start (file : Path) : Holds file [] (start file .update) := ⟨rfl, rfl, rfl, rfl⟩

/-- A declaration that is not accepted leaves the staged edits as they are. -/
theorem Holds.take_of_not_accepted {file : Path} {rs : List Renewal} {w : Staging} {t : Treatment}
    (hw : Holds file rs w) (h : ∀ batch, t.outcome ≠ .accepted batch) :
    Holds file rs (w.take t) := by
  obtain ⟨hchanges, hupdated, hpass, hfile⟩ := hw
  cases houtcome : t.outcome with
  | accepted batch => exact absurd houtcome (h batch)
  | refused =>
    have hrefused := PassReport.countRefused_of_update (r := w.report.charge t) hpass
    rw [take, houtcome]
    simp only [hrefused]
    exact ⟨hchanges, hupdated, hpass, hfile⟩
  | unchanged =>
    rw [take, houtcome]
    exact ⟨hchanges, hupdated, hpass, hfile⟩
  | failed =>
    rw [take, houtcome]
    exact ⟨hchanges, hupdated, hpass, hfile⟩

/-- An accepted declaration is staged, if its comments are apart from those of the declarations
before. -/
theorem Holds.take_of_accepted {source : Text} {file : Path} {rs : List Renewal} {w : Staging}
    {t : Treatment} {r : Renewal} (hw : Holds file rs w) (h : t.outcome = .accepted r.batch)
    (hrs : ∀ x ∈ rs ++ [r], x.planned.IsCommented source)
    (hapart : (rs ++ [r]).Pairwise fun a b => a.planned.ApartFrom b.planned) :
    Holds file (rs ++ [r]) (w.take t) := by
  obtain ⟨hchanges, hupdated, hpass, hfile⟩ := hw
  have hflat : (rs ++ [r]).flatMap Renewal.batch = w.changes.edits ++ r.batch := by
    rw [hchanges]
    simp
  have hstage : w.changes.stage r.batch = .ok ⟨(rs ++ [r]).flatMap Renewal.batch⟩ := by
    rw [hflat]
    refine Changeset.stage_of_apart ?_
    rw [← hflat]
    exact Renewal.apart_flatMap_batch hrs hapart
  have haccepted := PassReport.countAccepted_of_update (r := w.report.charge t) hpass
  rw [take, h]
  simp only [hstage, haccepted]
  refine ⟨rfl, ?_, hpass, hfile⟩
  show w.report.updated + 1 = _
  rw [hupdated, List.length_append]
  rfl

end Staging

namespace Treated

variable {σ : Type}

def renewals (out : Outside σ) (c : Config) (style : CommentStyle) (source : Text)
    (budget : Budget) : List Planned → Staging → Session σ → List Renewal
  | [], _, _ => []
  | p :: ps, w, s =>
    if budget.allows w.report.edits then
      let (t, s') := Treatment.ofPlanned out c style .update source p s
      (Treatment.renewal? out c style source p s).toList ++
        renewals out c style source budget ps (w.take t) s'
    else []

section Renewals

variable {out : Outside σ} {c : Config} {style : CommentStyle} {source : Text} {budget : Budget}

/-- Only planned declarations are accepted, each of them once at most. -/
theorem renewals_sublist (planned : List Planned) (w : Staging) (s : Session σ) :
    ((renewals out c style source budget planned w s).map Renewal.planned).Sublist planned := by
  induction planned generalizing w s with
  | nil => exact List.Sublist.slnil
  | cons p ps ih =>
    unfold renewals
    split
    · rw [List.map_append]
      cases hr : Treatment.renewal? out c style source p s with
      | none => exact (ih _ _).cons p
      | some r =>
        have hplanned : r.planned = p := by
          unfold Treatment.renewal? at hr
          split at hr
          · obtain ⟨comment, -, rfl⟩ := Option.map_eq_some_iff.mp hr
            rfl
          · cases hr
        simp only [Option.toList_some, List.map_cons, List.map_nil, List.cons_append,
          List.nil_append, hplanned]
        exact (ih _ _).cons_cons p
    · exact List.nil_sublist _

/-- The invariant of an update: what is staged are the batches of the accepted declarations. No
batch is given up, because the comments of planned declarations are apart. -/
theorem holds_ofPlanned {file : Path} {planned : List Planned} {done : List Renewal} {w : Staging}
    {s : Session σ} (hw : w.Holds file done)
    (hdone : ∀ r ∈ done, r.planned.IsCommented source)
    (hplanned : ∀ p ∈ planned, p.IsCommented source)
    (hapart : (done.map Renewal.planned ++ planned).Pairwise Planned.ApartFrom) :
    (ofPlanned out c style source budget planned w s).staging.Holds file
      (done ++ renewals out c style source budget planned w s) := by
  induction planned generalizing done w s with
  | nil => simpa [ofPlanned, renewals] using hw
  | cons p ps ih =>
    unfold ofPlanned renewals
    by_cases hbudget : budget.allows w.report.edits = true
    · simp only [hbudget, if_true, hw.pass]
      by_cases haccepted : ∃ batch,
          (Treatment.ofPlanned out c style .update source p s).1.outcome = .accepted batch
      · -- the batch is staged behind those of the declarations before
        obtain ⟨batch, hbatch⟩ := haccepted
        obtain ⟨r, hr, rfl, rfl⟩ := Treatment.exists_renewal?_eq_some hbatch
        have hnext : ∀ x ∈ done ++ [r], x.planned.IsCommented source := by
          intro x hx
          rcases List.mem_append.mp hx with hx | hx
          · exact hdone x hx
          · rw [List.mem_singleton.mp hx]
            exact hplanned _ List.mem_cons_self
        have hsplit : ((done ++ [r]).map Renewal.planned ++ ps).Pairwise Planned.ApartFrom := by
          simpa using hapart
        have hpairs : (done ++ [r]).Pairwise fun a b => a.planned.ApartFrom b.planned :=
          List.pairwise_map.mp (List.pairwise_append.mp hsplit).1
        have hrest := ih (s := (Treatment.ofPlanned out c style .update source r.planned s).2)
          (hw.take_of_accepted hbatch hnext hpairs) hnext
          (fun q hq => hplanned q (List.mem_cons_of_mem _ hq)) hsplit
        rw [hr, Option.toList_some, ← List.append_assoc]
        exact hrest
      · -- nothing is staged, and the declaration is not on the list either
        have hnone : ∀ batch,
            (Treatment.ofPlanned out c style .update source p s).1.outcome ≠ .accepted batch :=
          fun batch hbatch => haccepted ⟨batch, hbatch⟩
        have hsub : (done.map Renewal.planned ++ ps).Pairwise Planned.ApartFrom :=
          hapart.sublist (List.Sublist.append_left (List.sublist_cons_self p ps) _)
        have hrest := ih (s := (Treatment.ofPlanned out c style .update source p s).2)
          (hw.take_of_not_accepted hnone) hdone
          (fun q hq => hplanned q (List.mem_cons_of_mem _ hq)) hsub
        rw [Treatment.renewal?_eq_none hnone, Option.toList_none, List.nil_append]
        exact hrest
    · simpa [hbudget] using hw

end Renewals

end Treated

/-! ## Committing -/

/-- The commit of the batches of declarations whose comments are apart. -/
theorem Renewal.commit_flatMap_batch {source : Text} {rs : List Renewal}
    (hrs : ∀ r ∈ rs, r.planned.IsCommented source)
    (hapart : rs.Pairwise fun a b => a.planned.ApartFrom b.planned) :
    ∃ edits locations, edits.Perm (rs.map edit) ∧ InOrder edits ∧
      (⟨rs.flatMap batch⟩ : Changeset).commit source =
        match Diff.unified? source (weave source 0 edits) with
        | none => .error .noDiff
        | some diff => .ok ⟨source, weave source 0 edits, locations, diff⟩ := by
  obtain ⟨sorted, hperm, hsorted⟩ := exists_sorted hrs hapart
  have hmem : ∀ r ∈ sorted, r.planned.IsCommented source :=
    fun r hr => hrs r (hperm.mem_iff.mp hr)
  have hbatches : (sorted.flatMap batch).Perm (rs.flatMap batch) := hperm.flatMap_right batch
  refine ⟨sorted.map edit, (sorted.flatMap batch).map (Edit.location source), hperm.map edit,
    inOrder_map_edit hmem hsorted, ?_⟩
  have hcommit := Changeset.commit_of_inOrder hbatches (inOrder_flatMap_batch hmem hsorted)
    fun e he => fits_of_mem_flatMap_batch hrs he
  rw [weave_flatMap_batch hmem] at hcommit
  exact hcommit

/-! ## Whole files -/

section Update

variable {σ : Type} (out : Outside σ) (c : Config) (file : Path) (budget : Budget) (s : Session σ)
  {lang : Language} {source : Text}

/-- An update of a file whose comments stand as a parser finds them: every accepted declaration is
staged, and the commit replaces, for each of them and for nothing else, what stands from the
beginning of its first comment node to the end of its last one. There is no commit if the diff of
the two texts has a reversed hunk, and only then. -/
theorem update_replaces_comments (hlang : Language.ofPath? file = some lang)
    (hsource : Source.ofEntry file c.maxFileSize (out.find file s.outside) = .ok source) :
    ∃ matched, (Pass.update.rule lang.style c.request).search lang source (out.parse lang source)
        = .ok matched ∧
      (WellCommented lang.style source (out.parse lang source) matched →
        let planned := matched.filterMap (Planned.ofNode? lang.style .update source)
        let treated :=
          Treated.ofPlanned out c lang.style source budget planned (.start file .update) s
        let renewals :=
          Treated.renewals out c lang.style source budget planned (.start file .update) s
        (renewals.map Renewal.planned).Sublist planned ∧
        treated.staging.changes.edits = renewals.flatMap Renewal.batch ∧
        treated.staging.report.updated = renewals.length ∧
        (∀ r ∈ renewals, ∃ n ∈ matched, ∃ first last,
          Planned.ofNode? lang.style .update source n = some r.planned ∧
          (lang.style.commentNodes source n).head? = some first ∧
          (lang.style.commentNodes source n).getLast? = some last ∧
          r.edit.range = ⟨first.range.start, last.range.stop⟩) ∧
        ∃ edits, edits.Perm (renewals.map Renewal.edit) ∧ InOrder edits ∧
          ((∃ r, treated.staging.changes.commit source = .ok r ∧
              r.modified = weave source 0 edits) ↔
            ¬ Diff.HasReversedHunk source (weave source 0 edits)) ∧
          ((FilePass.ofPath out c .update file budget s).result = .error (.noDiff file) ↔
            Diff.HasReversedHunk source (weave source 0 edits)) ∧
          (¬ Diff.HasReversedHunk source (weave source 0 edits) → c.dryRun = false →
            weave source 0 edits ≠ source →
            (FilePass.ofPath out c .update file budget s).session =
              ((treated.session.note (.committed file treated.staging.changes.edits)).write out file
                (weave source 0 edits)).2)) := by
  obtain ⟨matched, hmatched⟩ : ∃ matched, (Pass.update.rule lang.style c.request).search lang source
      (out.parse lang source) = .ok matched :=
    Rule.exists_search_eq_ok (lang.style.patternsValid_rule c.request true)
  refine ⟨matched, hmatched, fun hcomments => ?_⟩
  intro planned treated renewals
  have hplanned : ∀ p ∈ planned, p.IsCommented source :=
    fun p hp => isCommented_of_mem_planned hmatched hcomments hp
  have hapart : planned.Pairwise Planned.ApartFrom := pairwise_planned hmatched hcomments
  have hsublist : (renewals.map Renewal.planned).Sublist planned :=
    Treated.renewals_sublist planned _ s
  have hmem : ∀ r ∈ renewals, r.planned ∈ planned :=
    fun r hr => hsublist.subset (List.mem_map_of_mem hr)
  have hholds : treated.staging.Holds file renewals := by
    have h : treated.staging.Holds file ([] ++ renewals) :=
      Treated.holds_ofPlanned (Staging.holds_start file) (by simp) hplanned (by simpa using hapart)
    exact h
  obtain ⟨hchanges, hupdated, -, hfile⟩ := hholds
  have hpairs : renewals.Pairwise fun a b => a.planned.ApartFrom b.planned :=
    List.pairwise_map.mp (hapart.sublist hsublist)
  obtain ⟨edits, locations, hperm, horder, hcommit⟩ :=
    Renewal.commit_flatMap_batch (fun r hr => hplanned _ (hmem r hr)) hpairs
  have hstaged : treated.staging.changes.commit source =
      match Diff.unified? source (weave source 0 edits) with
      | none => .error .noDiff
      | some diff => .ok ⟨source, weave source 0 edits, locations, diff⟩ := by
    rw [hchanges]
    exact hcommit
  have hpass : FilePass.ofPath out c .update file budget s
      = FilePass.ofPlan out c .update file ⟨lang.style, source, planned⟩ budget s :=
    FilePass.ofPath_of_search out c .update file budget s hlang hsource hmatched
  refine ⟨hsublist, by rw [hchanges], hupdated, ?_, edits, hperm, horder, ?_⟩
  · intro r hr
    obtain ⟨n, hn, hof⟩ := List.mem_filterMap.mp (hmem r hr)
    obtain ⟨first, last, hfirst, hlast, hcommented⟩ :=
      Planned.exists_commented_eq hof (hcomments.fits n hn)
    exact ⟨n, hn, first, last, hof, hfirst, hlast, hcommented⟩
  · rw [hpass]
    exact FilePass.ofPlan_of_commit out c .update file ⟨lang.style, source, planned⟩ budget s
      (show _ = treated from rfl) hfile hstaged

end Update

/-! ## Classes behind comments -/

/-- A file with one class, behind lines of comments that begin with three slashes. -/
structure ClassFile where
  source : Text
  comments : List Tree
  /-- where the class begins -/
  start : Nat

namespace ClassFile

def comment (start stop : Nat) : Tree := .node "comment" true ⟨start, stop⟩ []

def classTree (f : ClassFile) : Tree :=
  .node "class_declaration" true ⟨f.start, f.start + 10⟩
    [.node "class" false ⟨f.start, f.start + 5⟩ [],
      .node "identifier" true ⟨f.start + 6, f.start + 7⟩ [],
      .node "declaration_list" true ⟨f.start + 8, f.start + 10⟩
        [.node "\x7b" false ⟨f.start + 8, f.start + 9⟩ [],
          .node "\x7d" false ⟨f.start + 9, f.start + 10⟩ []]]

def tree (f : ClassFile) : Tree :=
  .node "compilation_unit" true ⟨0, f.start + 11⟩ (f.comments ++ [f.classTree])

def node (f : ClassFile) : Node := .child (.root f.tree) f.comments.reverse f.classTree

def path : Path := "a.cs".toList

theorem ofPath?_path : Language.ofPath? path = some .csharp := by decide +kernel

/-- The file with its tree, and a model that always drafts the same. The state is the text of the
file. -/
def outside (f : ClassFile) (reply : Text) : Outside Text where
  tokenizer := .estimate
  parse _ _ := f.tree
  find _ content := .ok (.file (Utf8.encode content))
  write _ t _ := (.ok (), t)
  models := { Models.placeholder with draft := fun _ content => (.ok ⟨reply, .zero⟩, content) }

def config : Config := { Config.standard with kinds := [.classKind], judge := false }

def update (f : ClassFile) (reply : Text) : FilePass Text :=
  FilePass.ofPath (f.outside reply) config .update path (.fresh none) (.start f.source)

def leftRule : Rule :=
  .all [.all [.anyKind ["record_declaration", "class_declaration"],
      .inParent (.anyKind Declaration.slashContainers)],
    Declaration.slashDocumented]

theorem prune_rule :
    Rule.prune Language.csharp.knows (Pass.update.rule .slashes config.request)
      = some leftRule := rfl

theorem patternsValid_leftRule : leftRule.patternsValid = true := by decide +kernel

theorem search_of_filter {f : ClassFile}
    (h : (Node.root f.tree).walk.filter (Rule.matchesAt f.source leftRule) = [f.node]) :
    (Pass.update.rule .slashes config.request).search .csharp f.source f.tree = .ok [f.node] := by
  rw [Rule.search, Rule.compile, prune_rule]
  simp only [patternsValid_leftRule, if_true]
  rw [← h]
  rfl

/-- Comments of the file stand as a parser finds them, if they do so with nothing below them. -/
theorem wellCommented {f : ClassFile} (ht : f.tree.LaidOut)
    (hwide : ∀ n ∈ [f.node], ∀ c ∈ CommentStyle.slashes.commentNodes f.source n,
      c.range.start < c.range.stop)
    (hfits : ∀ n ∈ [f.node], ∀ c ∈ CommentStyle.slashes.commentNodes f.source n,
      c.range.fits f.source = true)
    (hleaf : ∀ n ∈ [f.node], ∀ c ∈ CommentStyle.slashes.commentNodes f.source n,
      c.descendants.isEmpty = true) :
    WellCommented .slashes f.source f.tree [f.node] := by
  refine ⟨ht, hwide, hfits, ?_⟩
  intro n hn c hc m _
  rw [List.isEmpty_iff.mp (hleaf n hn c hc)]
  exact List.not_mem_nil

def twoLines : ClassFile :=
  ⟨"/// a\n/// b\nclass A {}\n".toList, [comment 0 5, comment 6 11], 12⟩

/-- Eight lines of comment, all but the first without a text. -/
def eightLines : ClassFile :=
  ⟨"/// b\n///\n///\n///\n///\n///\n///\n///\nclass A {}\n".toList,
    [comment 0 5, comment 6 9, comment 10 13, comment 14 17, comment 18 21, comment 22 25,
      comment 26 29, comment 30 33], 34⟩

def twelveMarks : Text := Text.joinLines (List.replicate 12 SlashComment.mark)

def eightLinesRenewal : List Edit :=
  [⟨⟨0, 5⟩, twelveMarks⟩, ⟨⟨5, 9⟩, []⟩, ⟨⟨9, 13⟩, []⟩, ⟨⟨13, 17⟩, []⟩, ⟨⟨17, 21⟩, []⟩,
    ⟨⟨21, 25⟩, []⟩, ⟨⟨25, 29⟩, []⟩, ⟨⟨29, 33⟩, []⟩]

theorem commit_eightLinesRenewal :
    (⟨eightLinesRenewal⟩ : Changeset).commit eightLines.source = .error .noDiff := by
  have hdiff : Diff.unified? eightLines.source (twelveMarks ++ "\nclass A {}\n".toList) = none := by
    cbv
  exact Changeset.commit_eq_noDiff_of_inOrder (by decide) (by decide) rfl hdiff

end ClassFile

open ClassFile

/-- Two lines of comment become one. -/
theorem update_of_two_lines :
    WellCommented .slashes twoLines.source twoLines.tree [twoLines.node] ∧
      (twoLines.update "/// c".toList).session.outside = "/// c\nclass A {}\n".toList := by
  have hsource : Source.ofEntry path config.maxFileSize
      ((twoLines.outside "/// c".toList).find path twoLines.source) = .ok twoLines.source := by
    rfl
  have hmatched : (Pass.update.rule .slashes config.request).search .csharp twoLines.source
      twoLines.tree = .ok [twoLines.node] := search_of_filter rfl
  have hcomments : WellCommented .slashes twoLines.source twoLines.tree [twoLines.node] :=
    wellCommented ⟨by decide, by decide⟩ (by decide) (by decide) (by decide)
  obtain ⟨matched, hfound, hupdate⟩ :=
    update_replaces_comments (twoLines.outside "/// c".toList) config path (.fresh none)
      (.start twoLines.source) ofPath?_path hsource
  obtain rfl : [twoLines.node] = matched := Except.ok.inj (hmatched.symm.trans hfound)
  obtain ⟨-, -, -, -, edits, hperm, -, -, -, hwritten⟩ := hupdate hcomments
  have hedits : edits = [⟨⟨0, 11⟩, "/// c".toList⟩] := List.perm_singleton.mp hperm
  have hweave : weave twoLines.source 0 [⟨⟨0, 11⟩, "/// c".toList⟩]
      = "/// c\nclass A {}\n".toList := rfl
  have hdiff : (Diff.unified? twoLines.source "/// c\nclass A {}\n".toList).isSome = true := by
    cbv
  have hshown : ¬ Diff.HasReversedHunk twoLines.source "/// c\nclass A {}\n".toList := by
    rw [← Diff.unified?_eq_none_iff]
    exact Option.isSome_iff_ne_none.mp hdiff
  rw [hedits, hweave] at hwritten
  exact ⟨hcomments, congrArg Session.outside (hwritten hshown rfl (by decide))⟩

/-- The first of eight lines loses its text, and four lines are added. Every line of the new comment
is a line of the old one, and the diff of the two has no text form. -/
theorem update_without_text_form :
    (Pass.update.rule .slashes config.request).search .csharp eightLines.source eightLines.tree
        = .ok [eightLines.node] ∧
      WellCommented .slashes eightLines.source eightLines.tree [eightLines.node] ∧
      (Treated.renewals (eightLines.outside twelveMarks) config .slashes eightLines.source
        (.fresh none)
        ([eightLines.node].filterMap (Planned.ofNode? .slashes .update eightLines.source))
        (.start path .update) (.start eightLines.source)).length = 1 ∧
      (eightLines.update twelveMarks).result = .error (.noDiff path) := by
  have hsource : Source.ofEntry path config.maxFileSize
      ((eightLines.outside twelveMarks).find path eightLines.source) = .ok eightLines.source := by
    rfl
  have hmatched : (Pass.update.rule .slashes config.request).search .csharp eightLines.source
      eightLines.tree = .ok [eightLines.node] := search_of_filter rfl
  have hcomments : WellCommented .slashes eightLines.source eightLines.tree [eightLines.node] :=
    wellCommented ⟨by decide, by decide⟩ (by decide) (by decide) (by decide)
  refine ⟨hmatched, hcomments, rfl, ?_⟩
  rw [ClassFile.update, FilePass.ofPath_of_search (eightLines.outside twelveMarks) config .update
    path (.fresh none) (.start eightLines.source) ofPath?_path hsource hmatched,
    (FilePass.ofPlan_eq _ _ _ _ _ _ _ rfl).1]
  exact Staging.commit_eq_noDiff_iff.mpr ⟨rfl, commit_eightLinesRenewal⟩

end DocComments
