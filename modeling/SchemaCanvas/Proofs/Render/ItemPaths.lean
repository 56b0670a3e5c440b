import SchemaCanvas.Proofs.Expr.Holes
import SchemaCanvas.Proofs.Expr.Scanning
import SchemaCanvas.Proofs.Number.Digits
import SchemaCanvas.Render.Loop

/-!
# Paths in a repetition

In the context of a repetition a dot path that begins with the name of the item leads to what a
longer path leads to outside of the loop: the path of the list, the position of the item, and what
follows the name. The name of the position leads to the position, and all other paths lead where
they lead outside, also through fields that stand beside or below a field that one of the two names
hides.

* `Json.pathSteps_append`, `Json.atPath?_eq` : the steps of a path that is put together, and that
  the blanks around a path make no difference;
* `Json.step?_toString` : a position is a step into a list;
* `Loop.lookup_itemContext` : the fields of the context of a repetition;
* `Loop.atPath?_itemContext` : where paths lead in it.
-/

namespace SchemaCanvas

/-! ### Blanks around a text -/

namespace Text

variable {lead trail : List Char}

theorem trimmed_prepend (h : AllBlank lead) (cs : List Char) :
    trimmed (lead ++ cs) = trimmed cs := by
  have hleft : trimLeft (lead ++ cs) = trimLeft cs := List.dropWhile_append_of_pos h
  rw [trimmed, trimmed, hleft]

theorem trimmed_append (h : AllBlank trail) (cs : List Char) :
    trimmed (cs ++ trail) = trimmed cs := by
  have hright (cs : List Char) : trimRight (cs ++ trail) = trimRight cs := by
    have hreverse : ∀ c ∈ trail.reverse, isBlank c := fun c hc => h c (List.mem_reverse.1 hc)
    rw [trimRight, trimRight, List.reverse_append, List.dropWhile_append_of_pos hreverse]
  have hnone : trail.dropWhile isBlank = [] := List.dropWhile_eq_nil_iff.2 h
  rw [trimmed, trimmed, trimLeft, trimLeft, List.dropWhile_append]
  split
  · next hempty => rw [hnone, List.isEmpty_iff.1 hempty]
  · rw [hright]

end Text

/-! ### Steps of a path -/

namespace Json

variable {cs : List Char} {data : Json}

/-- **The steps of a path are those before a point and those behind it.** -/
theorem pathSteps_append (cs behind : List Char) :
    pathSteps (cs ++ '.' :: behind) = pathSteps cs ++ pathSteps behind := by
  rw [pathSteps, List.splitOn_append_cons_self, List.map_append]
  rfl

theorem pathSteps_of_notMem (h : '.' ∉ cs) : pathSteps cs = [Text.trimmed cs] := by
  rw [pathSteps, List.splitOn_eq_singleton h]
  rfl

theorem exists_pathSteps_eq (cs : List Char) :
    ∃ later, pathSteps cs = Text.trimmed (cs.takeWhile (· ≠ '.')) :: later := by
  have htake {cs : List Char} (h : '.' ∉ cs) : ∀ c ∈ cs, decide (c ≠ '.') := by
    intro c hc
    simp only [decide_eq_true_eq]
    rintro rfl
    exact h hc
  by_cases hdot : '.' ∈ cs
  · obtain ⟨before, behind, rfl, hbefore⟩ := List.eq_append_cons_of_mem hdot
    refine ⟨pathSteps behind, ?_⟩
    rw [pathSteps_append, pathSteps_of_notMem hbefore,
      List.takeWhile_append_of_pos (htake hbefore)]
    simp
  · refine ⟨[], ?_⟩
    rw [pathSteps_of_notMem hdot, List.takeWhile_eq_self_iff.2 (htake hdot)]

variable {lead trail : List Char}

theorem pathSteps_prepend_blank (h : Text.AllBlank lead) (cs : List Char) :
    pathSteps (lead ++ cs) = pathSteps cs := by
  have hlead : '.' ∉ lead := fun hdot => absurd (h _ hdot) (by decide)
  by_cases hdot : '.' ∈ cs
  · obtain ⟨before, behind, rfl, hbefore⟩ := List.eq_append_cons_of_mem hdot
    have hboth : '.' ∉ lead ++ before := by simp [hlead, hbefore]
    rw [← List.append_assoc, pathSteps_append, pathSteps_append, pathSteps_of_notMem hboth,
      pathSteps_of_notMem hbefore, Text.trimmed_prepend h]
  · have hboth : '.' ∉ lead ++ cs := by simp [hlead, hdot]
    rw [pathSteps_of_notMem hboth, pathSteps_of_notMem hdot, Text.trimmed_prepend h]

theorem pathSteps_append_blank (h : Text.AllBlank trail) (cs : List Char) :
    pathSteps (cs ++ trail) = pathSteps cs := by
  have htrail : '.' ∉ trail := fun hdot => absurd (h _ hdot) (by decide)
  by_cases hdot : '.' ∈ cs
  · -- the blanks stand behind the last point, which is the first one read from the end
    obtain ⟨behind, before, hcs, hbehind⟩ := List.eq_append_cons_of_mem (List.mem_reverse.2 hdot)
    obtain rfl : cs = before.reverse ++ '.' :: behind.reverse := by
      simpa using congrArg List.reverse hcs
    have hlast : '.' ∉ behind.reverse := fun h => hbehind (List.mem_reverse.1 h)
    have hboth : '.' ∉ behind.reverse ++ trail := by simp [hbehind, htrail]
    rw [List.append_assoc, List.cons_append, pathSteps_append, pathSteps_append,
      pathSteps_of_notMem hboth, pathSteps_of_notMem hlast, Text.trimmed_append h]
  · have hboth : '.' ∉ cs ++ trail := by simp [htrail, hdot]
    rw [pathSteps_of_notMem hboth, pathSteps_of_notMem hdot, Text.trimmed_append h]

/-- **Blanks around a path make no difference.** -/
theorem pathSteps_trimmed (cs : List Char) : pathSteps (Text.trimmed cs) = pathSteps cs := by
  obtain ⟨lead, trail, hlead, htrail, -, hcs⟩ := Text.exists_outerBlanks (String.ofList cs)
  rw [String.toList_ofList, Text.trim, String.toList_ofList, String.toList_ofList] at hcs
  have hsteps := congrArg pathSteps hcs
  rw [pathSteps_prepend_blank hlead, pathSteps_append_blank htrail] at hsteps
  exact hsteps.symm

/-- The value to which steps lead. -/
def follow? (data : Json) (steps : List (List Char)) : Option Json :=
  steps.foldlM (fun v name => v.step? name) data

theorem follow?_singleton (data : Json) (name : List Char) :
    data.follow? [name] = data.step? name := by
  rw [follow?, List.foldlM_cons]
  cases data.step? name <;> rfl

theorem follow?_append (data : Json) (steps more : List (List Char)) :
    data.follow? (steps ++ more) = (data.follow? steps).bind fun v => v.follow? more := by
  rw [follow?, List.foldlM_append]
  rfl

/-- **A path that is not blank is followed step by step.** -/
theorem atPath?_eq {path : String} (h : Text.trim path ≠ "") (data : Json) :
    atPath? path data = data.follow? (pathSteps path.toList) := by
  have hne : Text.trimmed path.toList ≠ [] := fun hnil => h (congrArg String.ofList hnil)
  rw [atPath?, if_neg (by simpa using hne), pathSteps_trimmed, follow?]

theorem trim_ne_empty_of_mem {path : String} (h : '.' ∈ path.toList) : Text.trim path ≠ "" := by
  obtain ⟨lead, trail, hlead, htrail, -, hpath⟩ := Text.exists_outerBlanks path
  intro hempty
  rw [hpath, hempty, List.mem_append, List.mem_append] at h
  obtain h | h | h := h
  · exact absurd (hlead _ h) (by decide)
  · exact absurd h List.not_mem_nil
  · exact absurd (htrail _ h) (by decide)

theorem toList_behind (path behind : String) :
    (path ++ "." ++ behind).toList = path.toList ++ '.' :: behind.toList := by
  simp [String.toList_append]

/-- **A path that goes on behind a point** is followed in two parts. -/
theorem atPath?_behind (path behind : String) (data : Json) :
    atPath? (path ++ "." ++ behind) data =
      (data.follow? (pathSteps path.toList)).bind fun v => v.follow? (pathSteps behind.toList) := by
  have hdot : '.' ∈ (path ++ "." ++ behind).toList := by simp
  rw [atPath?_eq (trim_ne_empty_of_mem hdot), toList_behind, pathSteps_append, follow?_append]

/-- The first step of a path. -/
def firstStep (path : String) : String :=
  String.ofList (Text.trimmed (path.toList.takeWhile (· ≠ '.')))

/-- A name that is a step of a path: not empty, without points, and without blanks at its ends. -/
structure IsStep (name : String) : Prop where
  ne_empty : name ≠ ""
  noPoint : '.' ∉ name.toList
  trim_eq : Text.trim name = name

theorem IsStep.pathSteps_eq {name : String} (h : IsStep name) :
    pathSteps name.toList = [name.toList] := by
  have htrim := congrArg String.toList h.trim_eq
  rw [Text.trim, String.toList_ofList] at htrim
  rw [pathSteps_of_notMem h.noPoint, htrim]

theorem isStep_toString (n : Nat) : IsStep (toString n) where
  ne_empty hempty := Numeral.toList_toString_ne_nil n (congrArg String.toList hempty)
  noPoint hdot := absurd (Numeral.isDigit_of_mem_toString hdot) (by decide)
  trim_eq := by
    rw [Text.trim, Text.trimmed_of_forall, String.ofList_toList]
    exact fun c hc => Token.isBlank_of_isDigit (Numeral.isDigit_of_mem_toString hc)

theorem IsStep.atPath?_eq {name : String} (h : IsStep name) (fields : Entries Json) :
    atPath? name (.obj fields) = fields.lookup name := by
  have hne : Text.trim name ≠ "" := by
    rw [h.trim_eq]
    exact h.ne_empty
  rw [Json.atPath?_eq hne, h.pathSteps_eq, follow?_singleton, step?, String.ofList_toList]

/-- **Where a path leads in an object depends on the field of its first step.** -/
theorem atPath?_congr {path : String} (h : Text.trim path ≠ "") {fields fields' : Entries Json}
    (hfirst : fields.lookup (firstStep path) = fields'.lookup (firstStep path)) :
    atPath? path (.obj fields) = atPath? path (.obj fields') := by
  obtain ⟨later, hsteps⟩ := exists_pathSteps_eq path.toList
  rw [atPath?_eq h, atPath?_eq h, hsteps, follow?, follow?, List.foldlM_cons, List.foldlM_cons,
    step?, step?]
  exact congrArg (Option.bind · _) hfirst

end Json

/-! ### The context of a repetition -/

namespace Loop

variable {l : Loop} {fields : Entries Json} {item : Json} {i : Nat} {name : String}

/-- The fields of the context of one repetition. -/
def itemFields (l : Loop) (fields : Entries Json) (item : Json) (i : Nat) : Entries Json :=
  let inner := fields.insert l.item item
  match l.index with
  | some name => if name.isEmpty then inner else inner.insert name (.ofNat i)
  | none => inner

theorem itemContext_obj (l : Loop) (fields : Entries Json) (item : Json) (i : Nat) :
    l.itemContext (.obj fields) item i = .obj (l.itemFields fields item i) := by
  rw [itemContext, itemFields]
  cases l.index <;> rfl

theorem lookup_itemFields_index (h : l.index = some name) (hname : name ≠ "") :
    (l.itemFields fields item i).lookup name = some (.ofNat i) := by
  have hnonempty : name.isEmpty = false := by simpa using hname
  rw [itemFields, h]
  simp [hnonempty]

theorem lookup_itemFields_of_ne (h : ∀ n ∈ l.index, name ≠ n) :
    (l.itemFields fields item i).lookup name = (fields.insert l.item item).lookup name := by
  rw [itemFields]
  cases hindex : l.index with
  | none => rfl
  | some n =>
    dsimp only
    split
    · rfl
    · exact Entries.lookup_insert_of_ne (h n hindex) _ _

variable {path : String} {items : List Json}

/-- **In a repetition, paths from the item lead into the list.** Behind the name of the item a path
leads to what it leads to behind the path of the list and the position. The name of the position
leads to the position, and a path that begins with neither name leads where it leads outside. A
position has 64 bits, like the length of any list that is held in memory. -/
theorem atPath?_itemContext (transforms : Transforms) (hsource : l.source = .path path)
    (hpath : Text.trim path ≠ "") (hitems : Json.atPath? path (.obj fields) = some (.arr items))
    (hitem : Json.IsStep l.item) (hindex : ∀ name ∈ l.index, Json.IsStep name ∧ name ≠ l.item)
    (hi : i < items.length) (hword : i ≤ Word.maxUnsigned) :
    l.items (.obj fields) transforms = .ok items ∧
    (∀ q, Json.atPath? (l.item ++ "." ++ q) (l.itemContext (.obj fields) items[i] i) =
      Json.atPath? (path ++ "." ++ toString i ++ "." ++ q) (.obj fields)) ∧
    (∀ name ∈ l.index,
      Json.atPath? name (l.itemContext (.obj fields) items[i] i) = some (.ofNat i)) ∧
    ∀ p, Text.trim p ≠ "" → Json.firstStep p ≠ l.item →
      (∀ name ∈ l.index, Json.firstStep p ≠ name) →
      Json.atPath? p (l.itemContext (.obj fields) items[i] i) = Json.atPath? p (.obj fields) := by
  rw [itemContext_obj]
  refine ⟨?_, fun q => ?_, fun name hname => ?_, fun p hp hfirst hindex => ?_⟩
  · rw [Loop.items, hsource, LoopSource.resolve, hitems]
    rfl
  · have hname : (Json.obj (l.itemFields fields items[i] i)).follow?
        (Json.pathSteps l.item.toList) = some items[i] := by
      rw [hitem.pathSteps_eq, Json.follow?_singleton, Json.step?, String.ofList_toList,
        lookup_itemFields_of_ne fun n hn => (hindex n hn).2.symm, Entries.lookup_insert_self]
    have hposition : (Json.obj fields).follow? (Json.pathSteps (path ++ "." ++ toString i).toList) =
        some items[i] := by
      rw [Json.toList_behind, Json.pathSteps_append, Json.follow?_append, ← Json.atPath?_eq hpath,
        hitems, Option.bind_some, (Json.isStep_toString i).pathSteps_eq, Json.follow?_singleton,
        Json.step?_toString hword, List.getElem?_eq_getElem hi]
    rw [Json.atPath?_behind, Json.atPath?_behind, hname, hposition]
  · obtain ⟨hstep, -⟩ := hindex name hname
    rw [hstep.atPath?_eq, lookup_itemFields_index hname hstep.ne_empty]
  · refine Json.atPath?_congr hp ?_
    rw [lookup_itemFields_of_ne hindex, Entries.lookup_insert_of_ne hfirst]

/-- A house with rooms. -/
def house : Entries Json :=
  [("floor", .obj [("rooms", .arr [.obj [("name", .str "attic")], .obj [("name", .str "hall")]])]),
    ("rooms", .str "two"), ("title", .str "House")]

/-- A loop whose names hide fields of the context, one of them on the way to the list. -/
def roomLoop : Loop where
  source := .path " floor. rooms "
  item := "floor"
  index := some "rooms"

theorem atPath?_itemContext_house :
    let inner := roomLoop.itemContext (.obj house) (.obj [("name", .str "hall")]) 1
    Json.atPath? "floor.name" inner = Json.atPath? " floor. rooms .1.name" (.obj house) ∧
      Json.atPath? " floor. rooms .1.name" (.obj house) = some (.str "hall") ∧
      Json.atPath? "rooms" inner = some (.ofNat 1) ∧
      Json.atPath? " title" inner = some (.str "House") := by
  intro inner
  have hitem : Json.IsStep "floor" := ⟨by decide, by decide, by decide⟩
  have hindex : ∀ name ∈ roomLoop.index, Json.IsStep name ∧ name ≠ "floor" := by
    rintro _ ⟨⟩
    exact ⟨⟨by decide, by decide, by decide⟩, by decide⟩
  have hother : ∀ name ∈ roomLoop.index, Json.firstStep " title" ≠ name := by
    rintro _ ⟨⟩
    decide
  obtain ⟨-, hname, hposition, htitle⟩ := atPath?_itemContext (l := roomLoop) (i := 1) []
    rfl (by decide) (rfl : Json.atPath? " floor. rooms " (.obj house) = some (.arr _)) hitem hindex
    (by decide) (by decide)
  exact ⟨hname "name", rfl, hposition "rooms" rfl, htitle " title" (by decide) (by decide) hother⟩

end Loop

end SchemaCanvas
