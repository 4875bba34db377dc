import Mathlib.Tactic.SplitIfs
import SourceAtlas.CommandLine
import SourceAtlas.Proofs.OrderedTrees

/-!
# What a run writes

A tree is seen through its nodes: what stands at a location, without what is below it.
Writing a file changes the node at one location, the one to which the path leads
afterwards, and no other.  A run of the command line makes its report from the tree as it
is, writes it and changes nothing else.  A run fails if its path leads nowhere, if a directory
that it has to show cannot be listed, or if the output cannot be written, and then it changes
nothing.
-/

namespace SourceAtlas
namespace FileTree

/-- What stands at a place, without what is below it. -/
inductive Node where
  | file (content : ByteArray) (access : Access)
  | link (target : Bytes)
  | directory (access : Access)

def node : FileTree → Node
  | file content access => .file content access
  | link target => .link target
  | directory _ access => .directory access

def node? (tree : FileTree) (location : List Bytes) : Option Node :=
  (tree.at? location).map node

/-- A file may be put at a location: its directory is there, and at the location stands a
file or nothing. -/
def TakesFile (tree : FileTree) (location : List Bytes) : Prop :=
  ∃ directory name entries access, location = directory ++ [name] ∧
    tree.at? directory = some (.directory entries access) ∧
    (entries.lookup name = none ∨
      ∃ content held, entries.lookup name = some (.file content held))

section Nodes

variable {tree : FileTree} {location : List Bytes} {access : Access}

theorem at?_append (tree : FileTree) (first second : List Bytes) :
    tree.at? (first ++ second) = (tree.at? first).bind (·.at? second) := by
  induction first generalizing tree with
  | nil => rfl
  | cons name others ih =>
      rw [List.cons_append, at?, at?]
      cases tree.child? name with
      | none => rfl
      | some child => exact ih child

theorem at?_concat {entries : List (Bytes × FileTree)}
    (leads : tree.at? location = some (.directory entries access)) (name : Bytes) :
    tree.at? (location ++ [name]) = entries.lookup name := by
  rw [at?_append, leads, Option.bind_some, at?_directory_cons]
  cases entries.lookup name <;> rfl

theorem node?_eq_file_iff {content : ByteArray} :
    tree.node? location = some (.file content access) ↔
      tree.at? location = some (.file content access) := by
  unfold node?
  cases tree.at? location with
  | none => simp
  | some found => cases found <;> simp [node]

theorem node?_eq_link_iff {target : Bytes} :
    tree.node? location = some (.link target) ↔ tree.at? location = some (.link target) := by
  unfold node?
  cases tree.at? location with
  | none => simp
  | some found => cases found <;> simp [node]

theorem node?_eq_directory_iff :
    tree.node? location = some (.directory access) ↔
      ∃ entries, tree.at? location = some (.directory entries access) := by
  unfold node?
  cases tree.at? location with
  | none => simp
  | some found => cases found <;> simp [node]

theorem TakesFile.node? (takes : tree.TakesFile location) :
    tree.node? location = none ∨
      ∃ content held, tree.node? location = some (.file content held) := by
  obtain ⟨directory, name, entries, _, rfl, leads, missing | ⟨content, held, old⟩⟩ := takes
  · left
    rw [FileTree.node?, at?_concat leads, missing, Option.map_none]
  · right
    exact ⟨content, held, by rw [FileTree.node?, at?_concat leads, old]; rfl⟩

theorem TakesFile.ne_of_node? (takes : tree.TakesFile location) {other : List Bytes}
    {node : Node} (stands : tree.node? other = some node)
    (noFile : ∀ content held, node ≠ .file content held) : other ≠ location := by
  rintro rfl
  rcases takes.node? with missing | ⟨content, held, old⟩
  · rw [missing] at stands
    cases stands
  · rw [old] at stands
    exact noFile content held (Option.some.inj stands).symm

theorem lookup_setEntry (name : Bytes) (replacement : FileTree)
    (entries : List (Bytes × FileTree)) (key : Bytes) :
    (setEntry name replacement entries).lookup key =
      if key = name then some replacement else entries.lookup key := by
  induction entries with
  | nil => by_cases same : key = name <;> simp [setEntry, same]
  | cons entry entries ih =>
      obtain ⟨first, old⟩ := entry
      by_cases here : first = name
      · rw [setEntry, if_pos here, List.lookup_cons, List.lookup_cons, ← here]
        by_cases same : key = first
        · simp [same]
        · have different : (key == first) = false := by simpa using same
          simp [different, same]
      · rw [setEntry, if_neg here, List.lookup_cons, List.lookup_cons]
        by_cases same : key = first
        · simp [same, here]
        · have different : (key == first) = false := by simpa using same
          simp [different, ih]

/-- Putting a file at a location changes the node there and no other. -/
theorem node?_set (takes : tree.TakesFile location) (content : ByteArray) (access : Access)
    (other : List Bytes) :
    (tree.set location (.file content access)).node? other =
      if other = location then some (.file content access) else tree.node? other := by
  obtain ⟨directory, name, entries, _, rfl, leads, old⟩ := takes
  induction directory generalizing tree other with
  | nil =>
      obtain rfl := Option.some.inj leads
      cases other with
      | nil => rfl
      | cons key others =>
          have changed (held : Access) :
              (FileTree.directory entries held).set [name] (.file content access) =
                .directory (setEntry name (.file content access) entries) held := rfl
          rw [List.nil_append, changed, node?, node?, at?_directory_cons, at?_directory_cons,
            lookup_setEntry]
          by_cases same : key = name
          · subst same
            -- Nothing is below a file, neither the old one nor the new one.
            cases others with
            | nil => simp [at?, node]
            | cons next others =>
                rcases old with missing | ⟨before, held, known⟩
                · rw [missing]
                  simp
                · rw [known]
                  simp
          · simp [same]
  | cons first directory ih =>
      cases tree with
      | file | link => simp at leads
      | directory entries₀ held =>
          rw [at?_directory_cons, Option.bind_eq_some_iff] at leads
          obtain ⟨child, found, leads⟩ := leads
          have changed : (FileTree.directory entries₀ held).set (first :: (directory ++ [name]))
              (.file content access) = .directory
                (setEntry first (child.set (directory ++ [name]) (.file content access)) entries₀)
                held := by
            rw [set, found]
            simp
          cases other with
          | nil => rw [List.cons_append, changed]; simp [node?, at?, node]
          | cons key others =>
              rw [List.cons_append, changed, node?, node?, at?_directory_cons,
                at?_directory_cons, lookup_setEntry]
              by_cases same : key = first
              · subst same
                have below := ih others leads
                rw [node?, node?] at below
                simpa [found] using below
              · simp [same]

end Nodes
end FileTree

namespace FileSystem

/-- A piece of a path that names an entry. -/
def Names (piece : Bytes) : Prop :=
  piece ≠ [] ∧ piece ≠ [Path.dot] ∧ piece ≠ [Path.dot, Path.dot]

/-- How one piece of a path brings the way to the place of a file further. -/
inductive PlacedBy (root : FileTree) (follow : Placement) (goal location : List Bytes)
    (entries : List (Bytes × FileTree)) (access : Access) (piece : Bytes)
    (others : List Bytes) : Prop where
  | skip (empty : piece = []) (rest : placePieces root follow location others = .ok goal)
  | stay (entered : access.enter = true) (dot : piece = [Path.dot])
      (rest : placePieces root follow location others = .ok goal)
  | up (entered : access.enter = true) (dots : piece = [Path.dot, Path.dot])
      (rest : placePieces root follow location.dropLast others = .ok goal)
  | arrive (entered : access.enter = true) (named : Names piece) (last : others = [])
      (here : goal = location ++ [piece])
      (free : entries.lookup piece = none ∨
        ∃ content held, entries.lookup piece = some (.file content held))
  | follow (entered : access.enter = true) (named : Names piece) (target : Bytes)
      (found : entries.lookup piece = some (.link target)) (leads : target ≠ [])
      (rest : follow (if Path.isAbsolute target then [] else location)
        (Path.pieces target ++ others) = .ok goal)
  | enter (entered : access.enter = true) (named : Names piece)
      (below : List (Bytes × FileTree)) (inner : Access)
      (found : entries.lookup piece = some (.directory below inner))
      (rest : placePieces root follow (location ++ [piece]) others = .ok goal)

theorem placedBy_of_placePieces {root : FileTree} {follow : Placement}
    {goal location : List Bytes} {piece : Bytes} {others : List Bytes}
    (placed : placePieces root follow location (piece :: others) = .ok goal) :
    ∃ entries access, root.at? location = some (.directory entries access) ∧
      PlacedBy root follow goal location entries access piece others := by
  rw [placePieces] at placed
  split at placed
  case h_1 entries access leads =>
    refine ⟨entries, access, leads, ?_⟩
    by_cases empty : piece = []
    · rw [if_pos empty] at placed
      exact .skip empty placed
    rw [if_neg empty] at placed
    cases entered : access.enter with
    | false => simp [entered] at placed
    | true =>
        rw [entered, Bool.not_true, if_neg Bool.false_ne_true] at placed
        by_cases dot : piece = [Path.dot]
        · rw [if_pos dot] at placed
          exact .stay entered dot placed
        rw [if_neg dot] at placed
        by_cases dots : piece = [Path.dot, Path.dot]
        · rw [if_pos dots] at placed
          exact .up entered dots placed
        rw [if_neg dots] at placed
        have named : Names piece := ⟨empty, dot, dots⟩
        split at placed
        · cases placed
        · split at placed
          case h_1 missing =>
            split_ifs at placed with further refused
            exact .arrive entered named (by simpa using further) (Except.ok.inj placed).symm
              (.inl missing)
          case h_2 content held old =>
            split_ifs at placed with further refused
            exact .arrive entered named (by simpa using further) (Except.ok.inj placed).symm
              (.inr ⟨content, held, old⟩)
          case h_3 target found =>
            by_cases nothing : target = []
            · rw [if_pos nothing] at placed
              cases placed
            · rw [if_neg nothing] at placed
              exact .follow entered named target found nothing placed
          case h_4 below inner found => exact .enter entered named below inner found placed
  case h_2 => cases placed
  case h_3 => cases placed

section Walking

variable {root : FileTree} {following : Walk} {location : List Bytes}
  {entries : List (Bytes × FileTree)} {access : Access} {piece : Bytes} {others : List Bytes}
  (leads : root.at? location = some (.directory entries access))

include leads

theorem walkPieces_of_empty :
    walkPieces root true following location ([] :: others) =
      walkPieces root true following location others := by
  rw [walkPieces, leads]
  simp

variable (entered : access.enter = true)

include entered

theorem walkPieces_of_dot :
    walkPieces root true following location ([Path.dot] :: others) =
      walkPieces root true following location others := by
  rw [walkPieces, leads]
  simp [entered]

theorem walkPieces_of_dots :
    walkPieces root true following location ([Path.dot, Path.dot] :: others) =
      walkPieces root true following location.dropLast others := by
  rw [walkPieces, leads]
  simp [entered]

variable (named : Names piece)

include named

theorem walkPieces_of_missing (missing : entries.lookup piece = none) :
    walkPieces root true following location (piece :: others) = .error .notFound := by
  obtain ⟨notEmpty, notDot, notDots⟩ := named
  rw [walkPieces, leads]
  simp [notEmpty, entered, notDot, notDots, missing]

theorem walkPieces_of_link {target : Bytes}
    (found : entries.lookup piece = some (.link target)) (filled : target ≠ []) :
    walkPieces root true following location (piece :: others) =
      following (if Path.isAbsolute target then [] else location)
        (Path.pieces target ++ others) := by
  obtain ⟨notEmpty, notDot, notDots⟩ := named
  rw [walkPieces, leads]
  simp [notEmpty, entered, notDot, notDots, found, filled]

theorem walkPieces_of_entry {tree : FileTree} (found : entries.lookup piece = some tree)
    (noLink : ∀ target, tree ≠ .link target) :
    walkPieces root true following location (piece :: others) =
      walkPieces root true following (location ++ [piece]) others := by
  obtain ⟨notEmpty, notDot, notDots⟩ := named
  rw [walkPieces, leads]
  cases tree with
  | link target => exact absurd rfl (noLink target)
  | file | directory => simp [notEmpty, entered, notDot, notDots, found]

end Walking

section Placing

variable {root : FileTree} {goal : List Bytes}

theorem placePieces_takesFile {follow : Placement}
    (followed : ∀ location pieces, follow location pieces = .ok goal → root.TakesFile goal)
    (location pieces : List Bytes)
    (placed : placePieces root follow location pieces = .ok goal) : root.TakesFile goal := by
  induction pieces generalizing location with
  | nil => cases placed
  | cons piece others ih =>
      obtain ⟨entries, access, leads, step⟩ := placedBy_of_placePieces placed
      cases step with
      | skip _ rest => exact ih location rest
      | stay _ _ rest => exact ih location rest
      | up _ _ rest => exact ih location.dropLast rest
      | arrive _ _ _ here free => exact ⟨location, _, entries, access, here, leads, free⟩
      | follow _ _ target _ _ rest => exact followed _ _ rest
      | enter _ _ below inner _ rest => exact ih (location ++ [piece]) rest

theorem place_takesFile {links : Nat} {location pieces : List Bytes}
    (placed : place root links location pieces = .ok goal) : root.TakesFile goal := by
  induction links generalizing location pieces with
  | zero =>
      refine placePieces_takesFile (fun _ _ followed => ?_) location pieces placed
      cases followed
  | succ links ih => exact placePieces_takesFile (fun _ _ => ih) location pieces placed

/-- The end of a walk at a location. -/
def arrival (tree : FileTree) (location : List Bytes) : Except PathError Located :=
  match tree.at? location with
  | some found => .ok ⟨location, found⟩
  | none => .error .notFound

variable {changed : FileTree}
  (elsewhere : ∀ other, other ≠ goal → changed.node? other = root.node? other)
  (takes : root.TakesFile goal)
  (plain : changed.node? goal = none ∨
    ∃ content held, changed.node? goal = some (.file content held))

include elsewhere takes plain

/-- In a tree that differs at most in the file at the goal, a walk along the same pieces ends
at the goal. -/
theorem walkPieces_of_placePieces {follow : Placement} {following : Walk}
    (followed : ∀ location pieces, follow location pieces = .ok goal →
      following location pieces = arrival changed goal)
    (location pieces : List Bytes)
    (placed : placePieces root follow location pieces = .ok goal) :
    walkPieces changed true following location pieces = arrival changed goal := by
  induction pieces generalizing location with
  | nil => cases placed
  | cons piece others ih =>
      obtain ⟨entries, access, leads, step⟩ := placedBy_of_placePieces placed
      have isDirectory : root.node? location = some (.directory access) :=
        FileTree.node?_eq_directory_iff.mpr ⟨entries, leads⟩
      have before : location ≠ goal := takes.ne_of_node? isDirectory (by simp)
      obtain ⟨present, leadsNow⟩ := FileTree.node?_eq_directory_iff.mp
        ((elsewhere location before).trans isDirectory)
      have entry := FileTree.at?_concat leads piece
      have entryNow := FileTree.at?_concat leadsNow piece
      cases step with
      | skip empty rest =>
          rw [empty, walkPieces_of_empty leadsNow]
          exact ih location rest
      | stay entered dot rest =>
          rw [dot, walkPieces_of_dot leadsNow entered]
          exact ih location rest
      | up entered dots rest =>
          rw [dots, walkPieces_of_dots leadsNow entered]
          exact ih location.dropLast rest
      | arrive entered named last here _ =>
          subst last
          rw [← here] at entryNow
          cases stands : changed.at? goal with
          | none =>
              rw [stands] at entryNow
              rw [walkPieces_of_missing leadsNow entered named entryNow.symm, arrival, stands]
          | some tree =>
              rw [stands] at entryNow
              have noLink (target : Bytes) : tree ≠ .link target := by
                rintro rfl
                rw [FileTree.node?, stands] at plain
                simp [FileTree.node] at plain
              rw [walkPieces_of_entry leadsNow entered named entryNow.symm noLink, ← here, arrival,
                walkPieces, stands]
      | follow entered named target found filled rest =>
          have isLink : root.node? (location ++ [piece]) = some (.link target) :=
            FileTree.node?_eq_link_iff.mpr (entry.trans found)
          have apart := takes.ne_of_node? isLink (by simp)
          have foundNow := FileTree.node?_eq_link_iff.mp ((elsewhere _ apart).trans isLink)
          rw [walkPieces_of_link leadsNow entered named (entryNow.symm.trans foundNow) filled]
          exact followed _ _ rest
      | enter entered named below inner found rest =>
          have isBelow : root.node? (location ++ [piece]) = some (.directory inner) :=
            FileTree.node?_eq_directory_iff.mpr ⟨below, entry.trans found⟩
          have apart := takes.ne_of_node? isBelow (by simp)
          obtain ⟨belowNow, foundNow⟩ :=
            FileTree.node?_eq_directory_iff.mp ((elsewhere _ apart).trans isBelow)
          rw [walkPieces_of_entry leadsNow entered named (entryNow.symm.trans foundNow) (by simp)]
          exact ih (location ++ [piece]) rest

theorem walk_of_place {links : Nat} {location pieces : List Bytes}
    (placed : place root links location pieces = .ok goal) :
    walk changed true links location pieces = arrival changed goal := by
  induction links generalizing location pieces with
  | zero =>
      refine walkPieces_of_placePieces elsewhere takes plain (fun _ _ followed => ?_) location
        pieces placed
      cases followed
  | succ links ih =>
      exact walkPieces_of_placePieces elsewhere takes plain (fun _ _ => ih) location pieces placed

end Placing

/-- After a file is written to a path, the path leads to a location with that file, as it did
before if it led anywhere, and what stands at all other locations is as before.  A file that was
there keeps its access. -/
structure Overwrites (before after : FileSystem) (path : Bytes) (location : List Bytes)
    (content : ByteArray) (access : Access) : Prop where
  current : after.current = before.current
  earlier : before.locate true path = .error .notFound ∧ access = {} ∨
    ∃ old, before.locate true path = .ok ⟨location, .file old access⟩
  leads : after.locate true path = .ok ⟨location, .file content access⟩
  elsewhere : ∀ other, other ≠ location → after.root.node? other = before.root.node? other

theorem locate_of_target {system : FileSystem} (changed : FileSystem) {path : Bytes}
    {location : List Bytes} (placed : system.target path = .ok location)
    (sameCurrent : changed.current = system.current)
    (elsewhere : ∀ other, other ≠ location →
      changed.root.node? other = system.root.node? other)
    (plain : changed.root.node? location = none ∨
      ∃ content held, changed.root.node? location = some (.file content held)) :
    changed.locate true path = arrival changed.root location := by
  rw [target] at placed
  split at placed
  · cases placed
  case isFalse filled =>
    have walked := walk_of_place elsewhere (place_takesFile placed) plain placed
    rw [startOf] at walked
    rw [locate, if_neg filled, sameCurrent]
    exact walked

theorem takesFile_of_target {system : FileSystem} {path : Bytes} {location : List Bytes}
    (placed : system.target path = .ok location) : system.root.TakesFile location := by
  rw [target] at placed
  split at placed
  · cases placed
  · exact place_takesFile placed

theorem overwrites_of_target {system : FileSystem} {path : Bytes} {location : List Bytes}
    (placed : system.target path = .ok location) (content : ByteArray) :
    ∃ access, Overwrites system (system.rewrite location content) path location content
      access := by
  have takes := takesFile_of_target placed
  have found := locate_of_target system placed rfl (fun _ _ => rfl) takes.node?
  obtain ⟨access, earlier, written⟩ : ∃ access,
      (system.locate true path = .error .notFound ∧ access = {} ∨
        ∃ old, system.locate true path = .ok ⟨location, .file old access⟩) ∧
      FileTree.rewritten content (system.root.at? location) = .file content access := by
    rcases takes.node? with missing | ⟨old, held, stands⟩
    · rw [FileTree.node?, Option.map_eq_none_iff] at missing
      exact ⟨{}, .inl ⟨by rw [found, arrival, missing], rfl⟩, by rw [missing]; rfl⟩
    · rw [FileTree.node?_eq_file_iff] at stands
      exact ⟨held, .inr ⟨old, by rw [found, arrival, stands]⟩, by rw [stands]; rfl⟩
  have nodes := FileTree.node?_set takes content access
  have here : (system.rewrite location content).root.node? location =
      some (.file content access) := by
    rw [rewrite, written, nodes, if_pos rfl]
  have elsewhere (other : List Bytes) (apart : other ≠ location) :
      (system.rewrite location content).root.node? other = system.root.node? other := by
    rw [rewrite, written, nodes, if_neg apart]
  refine ⟨access, rfl, earlier, ?_, elsewhere⟩
  have foundNow := locate_of_target (system.rewrite location content) placed rfl elsewhere
    (.inr ⟨content, access, here⟩)
  rw [foundNow, arrival, FileTree.node?_eq_file_iff.mp here]

/-- Files are looked for where a path leads to something, and nothing else can go wrong. -/
theorem collect_cases (system : FileSystem) (limits : ScanLimits) (mode : ScanMode)
    (path : Bytes) :
    (system.exists? path = false ∧
      system.collect limits mode path = .error (.pathNotFound path)) ∨
    ∃ found, system.collect limits mode path = .ok found := by
  rw [collect]
  cases system.exists? path with
  | false => exact .inl ⟨rfl, rfl⟩
  | true =>
      right
      simp only [Bool.not_true, Bool.false_eq_true, if_false]
      split
      · exact ⟨_, rfl⟩
      · exact ⟨_, rfl⟩

end FileSystem

namespace CommandLine

/-- A diagram of directories is asked for, and one of those that it has to show cannot be
listed. -/
def Request.Unlistable (request : Request) (system : FileSystem) : Prop :=
  ∃ levels tree, request.diagram = .directory levels ∧ system.find request.path = .ok tree ∧
    DirectoryReport.lists levels tree = false

/-- A report is made of every path that leads to something, unless a directory cannot be
listed. -/
theorem Request.render_cases (request : Request) (system : FileSystem) :
    (system.exists? request.path = false ∧
      request.render system = .error (.pathNotFound request.path)) ∨
    (request.Unlistable system ∧
      request.render system = .error (.unlistable request.path .permissionDenied)) ∨
    ∃ report, request.render system = .ok report := by
  unfold Request.render
  cases asked : request.diagram with
  | directory levels =>
      simp only [DirectoryReport.render, FileSystem.exists?]
      cases found : system.find request.path with
      | error cause => exact .inl ⟨rfl, rfl⟩
      | ok tree =>
          cases listed : DirectoryReport.lists levels tree with
          | false => exact .inr (.inl ⟨⟨levels, tree, asked, found, listed⟩, by simp [listed]⟩)
          | true => exact .inr (.inr ⟨_, if_pos listed⟩)
  | code language =>
      simp only [FileSystem.surveyOutlines]
      rcases system.collect_cases ({ budget := request.budget } : Settings).limits .code
        request.path with ⟨missing, failed⟩ | ⟨found, collected⟩
      · rw [failed]
        exact .inl ⟨missing, rfl⟩
      · rw [collected]
        exact .inr (.inr ⟨_, rfl⟩)
  | relation depth =>
      simp only [FileSystem.surveyRelations]
      rcases system.collect_cases ({ budget := request.budget } : Settings).limits .relation
        request.path with ⟨missing, failed⟩ | ⟨found, collected⟩
      · rw [failed]
        exact .inl ⟨missing, rfl⟩
      · rw [collected]
        exact .inr (.inr ⟨_, rfl⟩)

/-- Why a run of an accepted command line fails: its path leads nowhere, a directory cannot be
listed, or the output cannot be written. -/
inductive FailsBy (request : Request) (system : FileSystem) : Failure → Prop where
  | missing (nowhere : system.exists? request.path = false) :
      FailsBy request system (.pathNotFound request.path)
  | unlisted (refused : request.Unlistable system) :
      FailsBy request system (.unlistable request.path .permissionDenied)
  | unwritten (cause : PathError) (refused : system.target request.output = .error cause) :
      FailsBy request system (.unwritable request.output cause)

/-- A run that fails says why and leaves the files as they are.  A run that succeeds puts the
report on the files as they were into the file that the output path leads to, and changes no
other. -/
theorem run_overwrites_output (setting? : Option Bytes) (arguments : List Bytes)
    (request : Request) (system : FileSystem)
    (accepted : parse? setting? arguments = some (.make request)) :
    ((run setting? arguments system).code = 1 ∧
      (run setting? arguments system).system = system ∧
      ∃ failure, FailsBy request system failure ∧
        (run setting? arguments system).printed = "Error: " ++ failure.message ++ "\n") ∨
    ((run setting? arguments system).code = 0 ∧
      ∃ report location access, request.render system = .ok report ∧
        system.target request.output = .ok location ∧
        system.Overwrites (run setting? arguments system).system request.output location
          report.toUTF8 access) := by
  simp only [run, accepted, Request.perform, FileSystem.write]
  rcases request.render_cases system with ⟨nowhere, rendered⟩ | ⟨refused, rendered⟩ |
    ⟨report, rendered⟩
  · rw [rendered]
    exact .inl ⟨rfl, rfl, _, .missing nowhere, rfl⟩
  · rw [rendered]
    exact .inl ⟨rfl, rfl, _, .unlisted refused, rfl⟩
  · rw [rendered]
    cases placed : system.target request.output with
    | error cause => exact .inl ⟨rfl, rfl, _, .unwritten cause placed, rfl⟩
    | ok location =>
        obtain ⟨access, overwrites⟩ := FileSystem.overwrites_of_target placed report.toUTF8
        exact .inr ⟨rfl, report, location, access, rfl, rfl, overwrites⟩

/-- A source file, with a link to where the diagram of its directory is to be put: a file
that is not there yet, in that very directory. -/
def linkedOutput (source : Access) : FileSystem where
  root := .directory [("work", .directory
    [("src", .directory [("a.py", .file ⟨#[120]⟩)] source), ("out.txt", .link "src/report.txt")])]
  current := ["work"]

def linkedArguments : List Bytes :=
  ["directory", "--path", "src", "--output=out.txt"]

def linkedRequest : Request :=
  ⟨.directory none, "src", "out.txt", 2000⟩

theorem linkedOutput_render :
    linkedRequest.render (linkedOutput {}) = .ok "src\n└── a.py" := by
  decide +kernel

theorem linkedOutput_render_locked :
    linkedRequest.render (linkedOutput { read := false }) =
      .error (.unlistable "src" .permissionDenied) := by
  decide +kernel

theorem linkedOutput_target :
    (linkedOutput {}).target linkedRequest.output = .ok ["work", "src", "report.txt"] := by
  rfl

/-- The report is put where the link leads.  If the directory cannot be listed, the run fails
and the files stay as they are. -/
theorem run_linkedOutput :
    parse? none linkedArguments = some (.make linkedRequest) ∧
      ((run none linkedArguments (linkedOutput {})).code = 0 ∧
        (linkedOutput {}).Overwrites (run none linkedArguments (linkedOutput {})).system "out.txt"
          ["work", "src", "report.txt"] "src\n└── a.py".toUTF8 {}) ∧
      (run none linkedArguments (linkedOutput { read := false })).system =
        linkedOutput { read := false } ∧
      (run none linkedArguments (linkedOutput { read := false })).printed =
        "Error: failed to list src: Permission denied (os error 13)\n" := by
  have accepted : parse? none linkedArguments = some (.make linkedRequest) := by
    decide +kernel
  refine ⟨accepted, ?_, ?_⟩
  · rcases run_overwrites_output none linkedArguments linkedRequest (linkedOutput {}) accepted with
      ⟨-, -, failure, why, -⟩ | ⟨code, report, location, access, rendered, placed, overwrites⟩
    · cases why with
      | missing nowhere => cases nowhere
      | unlisted refused =>
          obtain ⟨levels, tree, asked, found, unlisted⟩ := refused
          cases asked
          cases found
          cases unlisted
      | unwritten cause refused => cases refused
    · rw [linkedOutput_render, Except.ok.injEq] at rendered
      rw [linkedOutput_target, Except.ok.injEq] at placed
      subst rendered placed
      rcases overwrites.earlier with ⟨-, rfl⟩ | ⟨old, found⟩
      · exact ⟨code, overwrites⟩
      · cases found
  · rcases run_overwrites_output none linkedArguments linkedRequest
      (linkedOutput { read := false }) accepted with
      ⟨-, unchanged, failure, why, printed⟩ | ⟨-, report, _, _, rendered, -⟩
    · refine ⟨unchanged, printed.trans ?_⟩
      cases why with
      | missing nowhere => cases nowhere
      | unlisted refused => decide +kernel
      | unwritten cause refused => cases refused
    · rw [linkedOutput_render_locked] at rendered
      cases rendered

end CommandLine
end SourceAtlas
