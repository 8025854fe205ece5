import RoutineServer.Index.Basic

namespace RoutineServer

/-!
# The entries of names

An index lists under each name the documents that declare it. A document is
struck from the entries of the names it declared, and added at the end of those
it declares now. Both change these entries only.
-/

section Lookup

variable [BEq α] [LawfulBEq α]

theorem lookup_cons_of_ne
    {key first : α}
    (apart : key ≠ first)
    (value : β)
    (rest : List (α × β)) :
    ((first, value) :: rest).lookup key = rest.lookup key := by
  rw [List.lookup_cons, beq_eq_false_iff_ne.mpr apart]

theorem lookup_eq_none_of_not_mem
    {entries : List (α × β)}
    {key : α}
    (absent : key ∉ entries.map (·.1)) :
    entries.lookup key = none := by
  rw [List.lookup_eq_none_iff]
  intro entry member
  rw [bne_iff_ne]
  rintro rfl
  exact absent (List.mem_map_of_mem member)

theorem lookup_filter_self
    (entries : List (α × β))
    (key : α) :
    (entries.filter (·.1 != key)).lookup key = none := by
  apply lookup_eq_none_of_not_mem
  intro member
  obtain ⟨entry, kept, rfl⟩ := List.mem_map.mp member
  simp at kept

theorem lookup_filter_of_ne
    {key other : α}
    (apart : key ≠ other)
    (entries : List (α × β)) :
    (entries.filter (·.1 != other)).lookup key = entries.lookup key := by
  induction entries with
  | nil =>
      rfl
  | cons entry rest inductionHypothesis =>
      obtain ⟨first, value⟩ := entry
      by_cases taken : first = other
      · rw [lookup_cons_of_ne (by rwa [taken])]
        simp [taken, inductionHypothesis]
      · rw [List.filter_cons_of_pos (by simpa using taken)]
        by_cases sought : key = first
        · simp [sought]
        · rw [lookup_cons_of_ne sought, lookup_cons_of_ne sought, inductionHypothesis]

/-- Where keys are distinct, an entry is found by its key. -/
theorem lookup_eq_some_of_mem
    {entries : List (α × β)}
    {key : α}
    {value : β}
    (distinct : (entries.map (·.1)).Nodup)
    (member : (key, value) ∈ entries) :
    entries.lookup key = some value := by
  induction entries with
  | nil =>
      cases member
  | cons entry rest inductionHypothesis =>
      obtain ⟨first, other⟩ := entry
      rw [List.map_cons, List.nodup_cons] at distinct
      rcases List.mem_cons.mp member with isFirst | isLater
      · obtain ⟨rfl, rfl⟩ := Prod.mk.inj isFirst
        exact List.lookup_cons_self
      · have apart : key ≠ first := by
          rintro rfl
          exact distinct.1 (List.mem_map.mpr ⟨_, isLater, rfl⟩)
        rw [lookup_cons_of_ne apart, inductionHypothesis distinct.2 isLater]

theorem mem_of_lookup_eq_some
    {entries : List (α × β)}
    {key : α}
    {value : β}
    (found : entries.lookup key = some value) :
    (key, value) ∈ entries := by
  obtain ⟨before, after, rfl, -⟩ := List.lookup_eq_some_iff.mp found
  simp

end Lookup

namespace RoutineIndex

/-- The entry that lists some documents; without documents there is none. -/
def listing? (uris : List Text) : Option (List Text) :=
  if uris.isEmpty then none else some uris

section Strike

variable {uri key first : Text} {uris : List Text}

theorem strike_cons_of_ne
    (apart : first ≠ key)
    (rest : List (Text × List Text)) :
    strike uri key ((first, uris) :: rest) = (first, uris) :: strike uri key rest := by
  simp [strike, apart]

theorem strike_cons_emptied
    (emptied : uris.filter (· != uri) = [])
    (rest : List (Text × List Text)) :
    strike uri key ((key, uris) :: rest) = strike uri key rest := by
  rw [strike, List.filterMap_cons]
  simp only [beq_self_eq_true, ↓reduceIte, emptied, List.isEmpty_nil]
  rfl

theorem strike_cons_left
    (left : uris.filter (· != uri) ≠ [])
    (rest : List (Text × List Text)) :
    strike uri key ((key, uris) :: rest) =
      (key, uris.filter (· != uri)) :: strike uri key rest := by
  have some : (uris.filter (· != uri)).isEmpty = false := by
    rwa [List.isEmpty_eq_false_iff]
  rw [strike, List.filterMap_cons]
  simp only [beq_self_eq_true, ↓reduceIte, some, Bool.false_eq_true]
  rfl

/-- Striking a document takes entries away at most. -/
theorem map_fst_strike
    (uri key : Text)
    (byName : List (Text × List Text)) :
    ((strike uri key byName).map (·.1)).Sublist (byName.map (·.1)) := by
  induction byName with
  | nil =>
      exact .slnil
  | cons entry rest inductionHypothesis =>
      obtain ⟨first, uris⟩ := entry
      by_cases sought : first = key
      · subst sought
        by_cases emptied : uris.filter (· != uri) = []
        · rw [strike_cons_emptied emptied]
          exact inductionHypothesis.cons _
        · rw [strike_cons_left emptied]
          exact inductionHypothesis.cons_cons _
      · rw [strike_cons_of_ne sought]
        exact inductionHypothesis.cons_cons _

theorem lookup_strike_of_ne
    {other : Text}
    (apart : other ≠ key)
    (uri : Text)
    (byName : List (Text × List Text)) :
    (strike uri key byName).lookup other = byName.lookup other := by
  induction byName with
  | nil =>
      rfl
  | cons entry rest inductionHypothesis =>
      obtain ⟨first, uris⟩ := entry
      by_cases sought : first = key
      · subst sought
        rw [lookup_cons_of_ne apart]
        by_cases emptied : uris.filter (· != uri) = []
        · rw [strike_cons_emptied emptied, inductionHypothesis]
        · rw [strike_cons_left emptied, lookup_cons_of_ne apart, inductionHypothesis]
      · rw [strike_cons_of_ne sought]
        by_cases here : other = first
        · rw [here, List.lookup_cons_self, List.lookup_cons_self]
        · rw [lookup_cons_of_ne here, lookup_cons_of_ne here, inductionHypothesis]

theorem lookup_strike_self
    {byName : List (Text × List Text)}
    (distinct : (byName.map (·.1)).Nodup)
    (uri key : Text) :
    (strike uri key byName).lookup key =
      (byName.lookup key).bind fun uris => listing? (uris.filter (· != uri)) := by
  induction byName with
  | nil =>
      rfl
  | cons entry rest inductionHypothesis =>
      obtain ⟨first, uris⟩ := entry
      rw [List.map_cons, List.nodup_cons] at distinct
      have later := inductionHypothesis distinct.2
      by_cases sought : first = key
      · subst sought
        rw [List.lookup_cons_self, Option.bind_some, listing?]
        by_cases emptied : uris.filter (· != uri) = []
        · -- The entry goes, and no other one has its name.
          have absent := lookup_eq_none_of_not_mem distinct.1
          rw [strike_cons_emptied emptied, later, absent, emptied]
          rfl
        · rw [strike_cons_left emptied, List.lookup_cons_self, if_neg (by simpa using emptied)]
      · have apart : key ≠ first := Ne.symm sought
        rw [strike_cons_of_ne sought, lookup_cons_of_ne apart, lookup_cons_of_ne apart, later]

end Strike

/-- Strike a document from the entries of some names. -/
def strikeAll (uri : Text) (keys : List Text) (byName : List (Text × List Text)) :
    List (Text × List Text) :=
  keys.foldl (fun byName key => strike uri key byName) byName

theorem map_fst_strikeAll
    (uri : Text)
    (keys : List Text)
    (byName : List (Text × List Text)) :
    ((strikeAll uri keys byName).map (·.1)).Sublist (byName.map (·.1)) := by
  induction keys generalizing byName with
  | nil =>
      exact .refl _
  | cons key rest inductionHypothesis =>
      exact (inductionHypothesis _).trans (map_fst_strike uri key byName)

/-- An entry that lists some documents lists those among them that are left. -/
theorem bind_listing?_filter
    (keep : Text → Bool)
    (uris : List Text) :
    (listing? uris).bind (fun uris => listing? (uris.filter keep)) =
      listing? (uris.filter keep) := by
  cases uris with
  | nil =>
      rfl
  | cons uri rest =>
      rfl

/-- The entries after a document is struck from those of all names it declares. -/
theorem lookup_strikeAll
    {byName : List (Text × List Text)}
    (uri : Text)
    (keys : List Text)
    (listed : Text → List Text)
    (distinct : (byName.map (·.1)).Nodup)
    (entries : ∀ key, byName.lookup key = listing? (listed key))
    (declared : ∀ key, uri ∈ listed key → key ∈ keys)
    (key : Text) :
    (strikeAll uri keys byName).lookup key = listing? ((listed key).filter (· != uri)) := by
  induction keys generalizing byName listed with
  | nil =>
      have absent : ∀ other ∈ listed key, (other != uri) = true := by
        intro other member
        rw [bne_iff_ne]
        rintro rfl
        cases declared key member
      rw [List.filter_eq_self.mpr absent, ← entries]
      rfl
  | cons first rest inductionHypothesis =>
      -- The first name loses the document, the others are as they were.
      have later := inductionHypothesis
        (fun key => if key = first then (listed key).filter (· != uri) else listed key)
        (distinct.sublist (map_fst_strike uri first byName)) ?_ ?_
      · rw [strikeAll, List.foldl_cons]
        rw [strikeAll] at later
        rw [later]
        by_cases isFirst : key = first
        · simp [isFirst]
        · simp [isFirst]
      · intro other
        by_cases isFirst : other = first
        · rw [isFirst, lookup_strike_self distinct, entries, bind_listing?_filter, if_pos rfl]
        · rw [lookup_strike_of_ne isFirst, entries, if_neg isFirst]
      · intro other member
        by_cases isFirst : other = first
        · simp [isFirst] at member
        · rw [if_neg isFirst] at member
          exact (List.mem_cons.mp (declared other member)).resolve_left isFirst

/-- Some documents with one more at the end, unless it is among them. -/
def withDocument (uri : Text) (uris : List Text) : List Text :=
  if uris.contains uri then uris else uris ++ [uri]

theorem mem_withDocument
    (uri : Text)
    (uris : List Text) :
    uri ∈ withDocument uri uris := by
  rw [withDocument]
  split
  case isTrue listed => simpa using listed
  case isFalse => simp

theorem withDocument_of_mem
    {uri : Text}
    {uris : List Text}
    (listed : uri ∈ uris) :
    withDocument uri uris = uris :=
  if_pos (by simpa using listed)

theorem listing?_withDocument
    (uri : Text)
    (uris : List Text) :
    listing? (withDocument uri uris) = some (withDocument uri uris) := by
  refine if_neg ?_
  rw [List.isEmpty_iff]
  exact List.ne_nil_of_mem (mem_withDocument uri uris)

section Enter

variable {uri key : Text} {byName : List (Text × List Text)}

theorem lookup_map_entry_of_ne
    {other : Text}
    (apart : other ≠ key)
    (uris : List Text) :
    (byName.map fun entry => if entry.1 == key then (key, uris) else entry).lookup other =
      byName.lookup other := by
  induction byName with
  | nil =>
      rfl
  | cons entry rest inductionHypothesis =>
      obtain ⟨first, listed⟩ := entry
      rw [List.map_cons]
      by_cases sought : first = key
      · rw [if_pos (by simpa using sought), lookup_cons_of_ne apart, inductionHypothesis,
          lookup_cons_of_ne (by rwa [sought])]
      · rw [if_neg (by simpa using sought)]
        by_cases here : other = first
        · rw [here, List.lookup_cons_self, List.lookup_cons_self]
        · rw [lookup_cons_of_ne here, lookup_cons_of_ne here, inductionHypothesis]

theorem lookup_map_entry_self
    {listed : List Text}
    (found : byName.lookup key = some listed)
    (uris : List Text) :
    (byName.map fun entry => if entry.1 == key then (key, uris) else entry).lookup key =
      some uris := by
  induction byName with
  | nil =>
      cases found
  | cons entry rest inductionHypothesis =>
      obtain ⟨first, others⟩ := entry
      rw [List.map_cons]
      by_cases sought : first = key
      · rw [if_pos (by simpa using sought), List.lookup_cons_self]
      · have apart : key ≠ first := Ne.symm sought
        rw [lookup_cons_of_ne apart] at found
        rw [if_neg (by simpa using sought), lookup_cons_of_ne apart, inductionHypothesis found]

theorem map_fst_map_entry
    (uris : List Text) :
    (byName.map fun entry => if entry.1 == key then (key, uris) else entry).map (·.1) =
      byName.map (·.1) := by
  rw [List.map_map]
  apply List.map_congr_left
  intro entry _
  by_cases sought : entry.1 = key
  · simp [sought]
  · simp [sought]

theorem lookup_enter_of_ne
    {other : Text}
    (apart : other ≠ key) :
    (enter uri key byName).lookup other = byName.lookup other := by
  rw [enter]
  split
  case h_1 =>
    rw [List.lookup_append, lookup_cons_of_ne apart, List.lookup_nil, Option.or_none]
  case h_2 uris _ =>
    split
    case isTrue => rfl
    case isFalse => exact lookup_map_entry_of_ne apart _

theorem lookup_enter_self :
    (enter uri key byName).lookup key =
      some (withDocument uri ((byName.lookup key).getD [])) := by
  cases found : byName.lookup key with
  | none =>
      simp [enter, found, withDocument, List.lookup_append]
  | some uris =>
      simp only [enter, found, withDocument, Option.getD_some]
      split
      case isTrue => exact found
      case isFalse => exact lookup_map_entry_self found _

/-- An entry that is new has a name of its own. -/
theorem nodup_enter
    (distinct : (byName.map (·.1)).Nodup) :
    ((enter uri key byName).map (·.1)).Nodup := by
  rw [enter]
  split
  case h_1 found =>
    rw [List.map_append, List.nodup_append]
    refine ⟨distinct, by simp, ?_⟩
    intro name member other isKey same
    rw [List.map_cons, List.map_nil, List.mem_singleton] at isKey
    obtain ⟨entry, isEntry, isName⟩ := List.mem_map.mp member
    have apart := List.lookup_eq_none_iff.mp found entry isEntry
    rw [bne_iff_ne] at apart
    exact apart (by rw [isName, same, isKey])
  case h_2 =>
    split
    case isTrue => exact distinct
    case isFalse =>
      rwa [map_fst_map_entry]

end Enter

/-- Add a document to the entries of some names. -/
def enterAll (uri : Text) (keys : List Text) (byName : List (Text × List Text)) :
    List (Text × List Text) :=
  keys.foldl (fun byName key => enter uri key byName) byName

theorem nodup_enterAll
    {byName : List (Text × List Text)}
    (distinct : (byName.map (·.1)).Nodup)
    (uri : Text)
    (keys : List Text) :
    ((enterAll uri keys byName).map (·.1)).Nodup := by
  induction keys generalizing byName with
  | nil =>
      exact distinct
  | cons key rest inductionHypothesis =>
      exact inductionHypothesis (nodup_enter distinct)

/-- The entries after a document is added to those of all names it declares. -/
theorem lookup_enterAll
    {byName : List (Text × List Text)}
    (uri : Text)
    (keys : List Text)
    (listed : Text → List Text)
    (entries : ∀ key, byName.lookup key = listing? (listed key))
    (key : Text) :
    (enterAll uri keys byName).lookup key =
      listing? (if key ∈ keys then withDocument uri (listed key) else listed key) := by
  induction keys generalizing byName listed with
  | nil =>
      exact entries key
  | cons first rest inductionHypothesis =>
      have later := @inductionHypothesis (enter uri first byName)
        (fun key => if key = first then withDocument uri (listed key) else listed key) ?_
      · rw [enterAll, List.foldl_cons]
        rw [enterAll] at later
        rw [later]
        by_cases isFirst : key = first
        · simp [isFirst, withDocument_of_mem (mem_withDocument uri (listed first))]
        · simp [isFirst]
      · intro other
        by_cases isFirst : other = first
        · have before : (byName.lookup first).getD [] = listed first := by
            rw [entries, listing?]
            split
            case isTrue nothing => simpa using (List.isEmpty_iff.mp nothing).symm
            case isFalse => rfl
          rw [isFirst, lookup_enter_self, before, if_pos rfl, listing?_withDocument]
        · rw [lookup_enter_of_ne isFirst, entries, if_neg isFirst]

end RoutineIndex

end RoutineServer
