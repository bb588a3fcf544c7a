import RedisServer.Aof

/-!
# What a manifest leads a server to

A manifest is written by putting the name of a file between words and read back word by
word, so that a name with white space in it is not what is read.  Whether it does harm
depends on how the words pair up: a reading that names nothing leaves the server where it
was, and one that names another file leads it there.

A manifest may list several files of commands.  The last of them is the one opened, and the
only one played back.
-/

namespace RedisServer.Aof

/-! ## Words -/

/-- No piece of a split text holds what it was split at. -/
theorem forall_mem_splitOnP {α : Type} (separates : α → Bool) (values : List α) :
    ∀ piece ∈ values.splitOnP separates, ∀ value ∈ piece, separates value = false := by
  induction values with
  | nil => simp
  | cons first values ih =>
    rw [List.splitOnP_cons_eq_if_modifyHead]
    split
    · simpa using ih
    · rename_i solid
      cases pieces : values.splitOnP separates with
      | nil => simp
      | cons piece pieces' =>
        rw [pieces] at ih
        rw [List.modifyHead_cons]
        refine List.forall_mem_cons.mpr ⟨?_, fun other member => ih other (by simp [member])⟩
        exact List.forall_mem_cons.mpr ⟨by simpa using solid, ih piece (by simp)⟩

theorem solid_of_mem_words {line : List Char} {word : String} (member : word ∈ words line) :
    ∀ char ∈ word.toList, isWhitespace char = false := by
  obtain ⟨piece, isPiece, rfl⟩ := List.mem_map.mp member
  rw [String.toList_ofList]
  exact forall_mem_splitOnP isWhitespace line piece (List.mem_of_mem_filter isPiece)

/-- White space ends one word and begins the next. -/
theorem words_append (before after : List Char) {space : Char} (isSpace : isWhitespace space) :
    words (before ++ space :: after) = words before ++ words after := by
  simp only [words, List.splitOnP_append_cons _ _ isSpace, List.filter_append, List.map_append]

theorem words_solid {word : List Char} (solid : ∀ char ∈ word, isWhitespace char = false)
    (nonempty : word ≠ []) : words word = [String.ofList word] := by
  rw [words, List.splitOnP_eq_singleton solid]
  simp [nonempty]

/-- A carriage return at the end of a line is white space. -/
theorem words_withoutReturn (line : List Char) : words (withoutReturn line) = words line := by
  unfold withoutReturn
  split
  · rename_i isLast
    obtain ⟨front, rfl⟩ := List.getLast?_eq_some_iff.mp isLast
    rw [List.dropLast_concat, words_append front [] (by decide)]
    simp [words]
  · rfl

/-! ## Lines -/

/-- What stands before a text, and is on one line, goes to its first line. -/
theorem splitOn_append_first {front text first : List Char} {rest : List (List Char)}
    (unbroken : '\n' ∉ front) (isSplit : text.splitOn '\n' = first :: rest) :
    (front ++ text).splitOn '\n' = (front ++ first) :: rest := by
  induction front with
  | nil => exact isSplit
  | cons char front ih =>
    obtain ⟨differs, unbroken⟩ := List.ne_and_not_mem_of_not_mem_cons unbroken
    rw [List.cons_append, List.splitOn_cons_eq_if_modifyHead, if_neg (by simpa using differs.symm),
      ih unbroken]
    rfl

/-- What stands after a text, and is on one line, goes to its last line. -/
theorem splitOn_append_last {text ending last : List Char} {rest : List (List Char)}
    (unbroken : '\n' ∉ ending) (isSplit : text.splitOn '\n' = rest ++ [last]) :
    (text ++ ending).splitOn '\n' = rest ++ [last ++ ending] := by
  induction text generalizing rest last with
  | nil =>
    obtain ⟨rfl, rfl⟩ : rest = [] ∧ last = [] := by
      simpa [eq_comm, List.append_eq_singleton_iff] using isSplit
    exact List.splitOn_eq_singleton unbroken
  | cons char text ih =>
    rw [List.splitOn_cons_eq_if_modifyHead] at isSplit
    rw [List.cons_append, List.splitOn_cons_eq_if_modifyHead]
    obtain ⟨piece, pieces, isPieces⟩ := List.exists_cons_of_ne_nil (List.splitOn_ne_nil '\n' text)
    split at isSplit
    · rw [if_pos ‹_›]
      cases rest with
      | nil => exact absurd (List.cons.inj isSplit).2 (List.splitOn_ne_nil _ _)
      | cons first rest =>
        obtain ⟨rfl, isRest⟩ := List.cons.inj isSplit
        rw [ih isRest]
        rfl
    · rw [if_neg ‹_›]
      rw [isPieces] at isSplit
      cases rest with
      | nil =>
        cases isSplit
        rw [@ih piece [] isPieces]
        rfl
      | cons first rest =>
        obtain ⟨rfl, rfl⟩ := List.cons.inj isSplit
        rw [@ih last (piece :: rest) isPieces]
        rfl

/-! ## Fields -/

/-- The value of the last field of a name. -/
def lastValue (field : String) : List String → Option String
  | name :: value :: rest => (lastValue field rest).or (if name = field then some value else none)
  | _ => none

theorem fields_eq (name kind : Option String) (read : List String) :
    fields name kind read =
      match (lastValue "file" read).or name, (lastValue "type" read).or kind with
      | some name, some kind => some (name, kind)
      | _, _ => none := by
  induction read using lastValue.induct generalizing name kind with
  | case1 field value rest ih =>
    simp only [fields, lastValue]
    by_cases isFile : field = "file"
    · subst isFile
      simp [ih]
    · by_cases isType : field = "type"
      · subst isType
        simp [ih]
      · simp [isFile, isType, ih]
  | case2 read noPair =>
    have nothing (field : String) : lastValue field read = none := by
      unfold lastValue
      split
      · exact absurd rfl (noPair _ _ _)
      · rfl
    unfold fields
    split
    · exact absurd rfl (noPair _ _ _)
    · rw [nothing, nothing]
      cases name <;> cases kind <;> rfl

/-- Fields that come in pairs are read before those after them. -/
theorem lastValue_append (field : String) (front rest : List String) (paired : Even front.length) :
    lastValue field (front ++ rest) = (lastValue field rest).or (lastValue field front) := by
  induction front using lastValue.induct with
  | case1 name value front ih =>
    have pairedRest : Even front.length := by
      simpa [Nat.even_add_one] using paired
    simp only [List.cons_append, lastValue, ih pairedRest, Option.or_assoc]
  | case2 front noPair =>
    match front with
    | [] => simp [lastValue]
    | [_] => simp at paired
    | first :: second :: front => exact absurd rfl (noPair first second front)

/-- Whether the words of a line list a file of commands. -/
def Lists (read : List String) : Prop :=
  (∃ name, lastValue "file" read = some name) ∧ lastValue "type" read = some incremental

theorem listed_eq_some_iff {line : List Char} {name kind : String} :
    listed line = some (name, kind) ↔
      lastValue "file" (words line) = some name ∧ lastValue "type" (words line) = some kind := by
  rw [listed, fields_eq, Option.or_none, Option.or_none]
  split
  · rename_i isName isKind
    simp [isName, isKind]
  · rename_i nothing
    exact iff_of_false (by simp) fun ⟨isName, isKind⟩ => nothing _ _ isName isKind

/-! ## The files a manifest lists -/

/-- The files of commands a manifest lists, in order. -/
def filesOf (content : String) : List String :=
  (((lines content).filterMap listed).filter fun listed => listed.2 = incremental).map Prod.fst

theorem recordedIn_eq {directory : Directory} {manifest content : String} {bytes : Bytes}
    (held : directory[manifest]? = some bytes) (isText : text bytes = some content) :
    recordedIn directory manifest = .ok (filesOf content).getLast? := by
  simp only [recordedIn, held, isText, filesOf, List.getLast?_map]

theorem filesOf_isEmpty_iff (content : String) :
    (filesOf content).isEmpty = false ↔ ∃ line ∈ lines content, Lists (words line) := by
  rw [List.isEmpty_eq_false_iff_exists_mem]
  constructor
  · rintro ⟨_, member⟩
    obtain ⟨⟨name, kind⟩, isListed, rfl⟩ := List.mem_map.mp member
    obtain ⟨isListed, isKind⟩ := List.mem_filter.mp isListed
    obtain ⟨line, isLine, readsAs⟩ := List.mem_filterMap.mp isListed
    obtain ⟨isName, isType⟩ := listed_eq_some_iff.mp readsAs
    exact ⟨line, isLine, ⟨name, isName⟩, by simpa [isType] using isKind⟩
  · rintro ⟨line, isLine, ⟨name, isName⟩, isType⟩
    refine ⟨name, List.mem_map.mpr ⟨(name, incremental), List.mem_filter.mpr ⟨?_, by simp⟩, rfl⟩⟩
    exact List.mem_filterMap.mpr ⟨line, isLine, listed_eq_some_iff.mpr ⟨isName, isType⟩⟩

/-- A file is listed by one word. -/
theorem solid_of_mem_filesOf {content name : String} (member : name ∈ filesOf content) :
    ∀ char ∈ name.toList, isWhitespace char = false := by
  obtain ⟨⟨name, kind⟩, isListed, rfl⟩ := List.mem_map.mp member
  obtain ⟨line, -, readsAs⟩ := List.mem_filterMap.mp (List.mem_of_mem_filter isListed)
  have value (field : String) (read : List String) :
      ∀ word, lastValue field read = some word → word ∈ read := by
    induction read using lastValue.induct with
    | case1 first second rest ih =>
      intro word found
      rw [lastValue, Option.or_eq_some_iff] at found
      rcases found with later | ⟨-, here⟩
      · simp [ih word later]
      · split at here
        · cases here
          simp
        · cases here
    | case2 read noPair =>
      intro word found
      unfold lastValue at found
      split at found
      · exact absurd rfl (noPair _ _ _)
      · cases found
  exact solid_of_mem_words (value "file" _ _ (listed_eq_some_iff.mp readsAs).1)

/-! ## A server started over and over -/

/-- The files a server opens when it is started over and over, recording commands each
time. -/
def openedIn (config : Config) : Directory → List (List Value) → Except StartError (List String)
  | _, [] => .ok []
  | directory, commands :: sessions =>
    match prepare config directory with
    | .error error => .error error
    | .ok none => .ok []
    | .ok (some (name, directory)) =>
      (openedIn config (commands.foldl (record name) directory) sessions).map (name :: ·)

def holdsWhitespace (name : String) : Bool := name.toList.any isWhitespace

/-- Whether the manifest a server writes is read back as naming some other file. -/
def misleads (config : Config) : Bool :=
  holdsWhitespace config.appendfilename && !(filesOf (listing config)).isEmpty

section

variable {config : Config}

theorem manifest_ne_incrementalName : manifest config ≠ incrementalName config first := by
  intro same
  have chars := congrArg String.toList same
  simp only [manifest, incrementalName, String.toList_append, List.append_assoc,
    List.append_cancel_left_eq] at chars
  revert chars
  decide

theorem toList_incrementalName :
    (incrementalName config first).toList =
      config.appendfilename.toList ++ ".1.incr.aof".toList := by
  simp only [incrementalName, String.toList_append, List.append_assoc]
  rfl

/-- The lines of the manifest a server writes are those of the file's name between the words
around it. -/
theorem lines_listing {rest : List (List Char)} {last : List Char}
    (isSplit : ("file ".toList ++ config.appendfilename.toList).splitOn '\n' = rest ++ [last]) :
    lines (listing config) =
      rest.map withoutReturn ++ [last ++ ".1.incr.aof".toList ++ " seq 1 type i".toList] := by
  have spelled : (listing config).toList = "file ".toList ++ config.appendfilename.toList ++
      (".1.incr.aof".toList ++ " seq 1 type i".toList) ++ '\n' :: [] := by
    simp only [listing, String.toList_append, toList_incrementalName, List.append_assoc]
    rfl
  have ended (front : List Char) : withoutReturn (front ++ " seq 1 type i".toList) =
      front ++ " seq 1 type i".toList := by
    have last : (front ++ " seq 1 type i".toList).getLast? = some 'i' := by
      simp
    rw [withoutReturn, last]
    rfl
  rw [lines, spelled, List.splitOn_append_cons_self, splitOn_append_last (by decide) isSplit,
    List.splitOn_nil]
  simp only [List.getLast?_append, List.getLast?_singleton, Option.some_or, if_true,
    List.dropLast_concat, List.map_append, List.map_cons, List.map_nil, ← List.append_assoc, ended]

theorem lines_listing_of_oneLine (oneLine : '\n' ∉ config.appendfilename.toList) :
    lines (listing config) =
      ["file ".toList ++ (incrementalName config first).toList ++ " seq 1 type i".toList] := by
  have isSplit := @splitOn_append_first "file ".toList _ _ _ (by decide)
    (List.splitOn_eq_singleton oneLine)
  rw [toList_incrementalName, ← List.append_assoc]
  exact @lines_listing _ [] _ isSplit

theorem words_file (name : List Char) : words ("file ".toList ++ name) = "file" :: words name := by
  have opening : words "file".toList = ["file"] := by decide +kernel
  rw [show "file ".toList ++ name = "file".toList ++ ' ' :: name by simp,
    words_append _ _ (by decide), opening]
  rfl

theorem words_ending (name : List Char) :
    words (name ++ " seq 1 type i".toList) = words name ++ ["seq", "1", "type", "i"] := by
  have ending : words "seq 1 type i".toList = ["seq", "1", "type", "i"] := by decide +kernel
  rw [show name ++ " seq 1 type i".toList = name ++ ' ' :: "seq 1 type i".toList by simp,
    words_append _ _ (by decide), ending]

/-- A name without white space is read back as it was written. -/
theorem filesOf_listing_of_solid (solid : holdsWhitespace config.appendfilename = false) :
    filesOf (listing config) = [incrementalName config first] := by
  have noSpace : ∀ char ∈ config.appendfilename.toList, isWhitespace char = false := by
    simpa [holdsWhitespace] using solid
  have ending : ∀ char ∈ ".1.incr.aof".toList, isWhitespace char = false := by
    simp [isWhitespace]
  have named : words (incrementalName config first).toList = [incrementalName config first] := by
    rw [words_solid, String.ofList_toList]
    · intro char member
      rw [toList_incrementalName, List.mem_append] at member
      exact member.elim (noSpace char) (ending char)
    · simp [toList_incrementalName]
  have oneLine : '\n' ∉ config.appendfilename.toList :=
    fun member => absurd (noSpace '\n' member) (by decide)
  rw [filesOf, lines_listing_of_oneLine oneLine, List.filterMap_cons, listed, words_ending,
    words_file, named]
  rfl

/-- On one line the words of the name and those around them pair up in one of two ways. -/
theorem filesOf_listing_of_oneLine (oneLine : '\n' ∉ config.appendfilename.toList) :
    (filesOf (listing config)).isEmpty = false ↔
      Odd (words (incrementalName config first).toList).length ∨
        lastValue "type" ("file" :: (words (incrementalName config first).toList ++ ["seq"])) =
          some incremental := by
  simp only [filesOf_isEmpty_iff, lines_listing_of_oneLine oneLine, List.mem_singleton,
    exists_eq_left, words_ending, words_file, List.cons_append]
  generalize words (incrementalName config first).toList = named
  have file : ∃ name, lastValue "file" ("file" :: (named ++ ["seq", "1", "type", "i"])) =
      some name := by
    cases named with
    | nil => exact ⟨_, rfl⟩
    | cons word named =>
      simp only [List.cons_append, lastValue, if_true]
      cases lastValue "file" (named ++ ["seq", "1", "type", "i"]) <;> exact ⟨_, rfl⟩
  have kind : lastValue "type" ("file" :: (named ++ ["seq", "1", "type", "i"])) = some incremental ↔
      Odd named.length ∨ lastValue "type" ("file" :: (named ++ ["seq"])) = some incremental := by
    by_cases odd : Odd named.length
    · have paired : Even ("file" :: named).length := by
        simpa [Nat.even_add_one] using odd
      rw [← List.cons_append, lastValue_append _ _ _ paired]
      exact iff_of_true rfl (.inl odd)
    · have paired : Even ("file" :: (named ++ ["seq"])).length := by
        simpa [Nat.even_add_one] using odd
      have regrouped : "file" :: (named ++ ["seq", "1", "type", "i"]) =
          ("file" :: (named ++ ["seq"])) ++ ["1", "type", "i"] := by
        simp
      rw [regrouped, lastValue_append _ _ _ paired, or_iff_right odd]
      rfl
  rw [Lists, kind, and_iff_right file]

/-- On several lines each line is read by itself. -/
theorem filesOf_listing_of_lines {opening ending : List Char} {middle : List (List Char)}
    (isSplit : config.appendfilename.toList.splitOn '\n' = opening :: (middle ++ [ending])) :
    (filesOf (listing config)).isEmpty = false ↔ Lists ("file" :: words opening) ∨
      (∃ part ∈ middle, Lists (words part)) ∨
        Lists (words (ending ++ ".1.incr.aof".toList) ++ ["seq", "1", "type", "i"]) := by
  have isWhole : ("file ".toList ++ config.appendfilename.toList).splitOn '\n' =
      (("file ".toList ++ opening) :: middle) ++ [ending] :=
    splitOn_append_first (by decide) isSplit
  rw [filesOf_isEmpty_iff, lines_listing isWhole]
  simp only [List.map_cons, List.cons_append, List.mem_cons, List.mem_append, List.mem_map,
    List.not_mem_nil, or_false, or_and_right, exists_or, exists_eq_left,
    words_withoutReturn, words_file, words_ending, exists_exists_and_eq_and]

/-- What a server reads back of its own manifest: its own file, nothing, or some other
file. -/
theorem filesOf_listing_getLast (config : Config) :
    if misleads config then
      ∃ name, (filesOf (listing config)).getLast? = some name ∧ name ≠ incrementalName config first
    else
      (filesOf (listing config)).getLast? = some (incrementalName config first) ∨
        (filesOf (listing config)).getLast? = none := by
  cases white : holdsWhitespace config.appendfilename with
  | false =>
    rw [if_neg (by simp [misleads, white]), filesOf_listing_of_solid white]
    exact .inl rfl
  | true =>
    cases found : filesOf (listing config) with
    | nil =>
      rw [if_neg (by simp [misleads, found])]
      exact .inr rfl
    | cons name names =>
      rw [if_pos (by simp [misleads, white, found])]
      have isLast := List.getLast?_eq_some_getLast (List.cons_ne_nil name names)
      refine ⟨_, isLast, fun same => ?_⟩
      have member : incrementalName config first ∈ filesOf (listing config) := by
        rw [found, ← same]
        exact List.getLast_mem _
      obtain ⟨space, inName, isSpace⟩ := List.any_eq_true.mp white
      have solid := solid_of_mem_filesOf member space
        (by rw [toList_incrementalName]; exact List.mem_append_left _ inName)
      rw [isSpace] at solid
      cases solid

/-- Coming up over a directory without a manifest, or with the server's own, opens the
server's own file and leaves its own manifest. -/
theorem prepare_own (appendonly : config.appendonly) (leads : misleads config = false)
    {directory : Directory}
    (held : directory[manifest config]? = none ∨
      directory[manifest config]? = some (utf8 (listing config))) :
    ∃ next, prepare config directory = .ok (some (incrementalName config first, next)) ∧
      next[manifest config]? = some (utf8 (listing config)) ∧
      ∃ log, next[incrementalName config first]? = some log := by
  have readBack := filesOf_listing_getLast config
  rw [leads] at readBack
  have apart := @manifest_ne_incrementalName config
  have opens {before : Directory}
      (isManifest : before[manifest config]? = some (utf8 (listing config)))
      (prepared : prepare config directory = .ok (some (incrementalName config first,
        before.insert (incrementalName config first)
          (before[incrementalName config first]?.getD [])))) :
      ∃ next, prepare config directory = .ok (some (incrementalName config first, next)) ∧
        next[manifest config]? = some (utf8 (listing config)) ∧
        ∃ log, next[incrementalName config first]? = some log := by
    refine ⟨_, prepared, ?_, _, Std.ExtTreeMap.getElem?_insert_self⟩
    rw [Map.lookup_insert, if_neg apart, isManifest]
  have fresh : (directory.insert (manifest config) (utf8 (listing config)))[manifest config]? =
      some (utf8 (listing config)) := by
    simp
  rcases held with absent | own
  · exact opens fresh (by simp only [prepare, appendonly, if_true, recordedIn, absent])
  · have found := recordedIn_eq own (text_utf8 _)
    rcases readBack with same | nothing
    · rw [same] at found
      exact opens own (by simp only [prepare, appendonly, if_true, found])
    · rw [nothing] at found
      exact opens fresh (by simp only [prepare, appendonly, if_true, found])

theorem openedIn_own (appendonly : config.appendonly) (leads : misleads config = false)
    (sessions : List (List Value)) {directory : Directory}
    (held : directory[manifest config]? = none ∨
      directory[manifest config]? = some (utf8 (listing config))) :
    openedIn config directory sessions =
      .ok (sessions.map fun _ => incrementalName config first) := by
  induction sessions generalizing directory with
  | nil => rfl
  | cons commands sessions ih =>
    obtain ⟨next, prepared, isManifest, log, opened⟩ := prepare_own appendonly leads held
    obtain ⟨-, elsewhere⟩ := foldl_record opened commands
    rw [openedIn, prepared]
    dsimp only
    rw [ih (.inr (by rw [elsewhere _ manifest_ne_incrementalName, isManifest]))]
    rfl

end

/-- A server started over and over from an empty directory opens one and the same file, and
reads its own manifest back as naming that file or nothing, exactly when the manifest does
not mislead it.  For a name on one line that depends on whether the words of the file's
name are even in number, and on the last `type` among them; for a name on several lines, on
whether one of them lists a file of commands by itself. -/
theorem restart_finds_log_iff (config : Config) (appendonly : config.appendonly) :
    (((∀ sessions, openedIn config ∅ sessions =
          .ok (sessions.map fun _ => incrementalName config first)) ∧
        ((filesOf (listing config)).getLast? = some (incrementalName config first) ∨
          (filesOf (listing config)).getLast? = none)) ↔
      misleads config = false) ∧
    ('\n' ∉ config.appendfilename.toList →
      (misleads config = true ↔ holdsWhitespace config.appendfilename ∧
        (Odd (words (incrementalName config first).toList).length ∨
          lastValue "type" ("file" :: (words (incrementalName config first).toList ++ ["seq"])) =
            some incremental))) ∧
    ∀ opening middle ending,
      config.appendfilename.toList.splitOn '\n' = opening :: (middle ++ [ending]) →
      (misleads config = true ↔ Lists ("file" :: words opening) ∨
        (∃ part ∈ middle, Lists (words part)) ∨
          Lists (words (ending ++ ".1.incr.aof".toList) ++ ["seq", "1", "type", "i"])) := by
  refine ⟨⟨fun ⟨_, readBack⟩ => ?_, fun leads => ⟨fun sessions => ?_, ?_⟩⟩, fun oneLine => ?_,
    fun opening middle ending isSplit => ?_⟩
  · have reads := filesOf_listing_getLast config
    split at reads
    · obtain ⟨name, isName, other⟩ := reads
      rw [isName] at readBack
      rcases readBack with same | nothing
      · exact absurd (Option.some.inj same) other
      · cases nothing
    · rename_i leads
      simpa using leads
  · exact openedIn_own appendonly leads sessions (.inl (by simp))
  · have reads := filesOf_listing_getLast config
    rw [leads] at reads
    exact reads
  · rw [misleads, Bool.and_eq_true, Bool.not_eq_true', filesOf_listing_of_oneLine oneLine]
  · have broken : holdsWhitespace config.appendfilename = true := by
      refine List.any_eq_true.mpr ⟨'\n', ?_, by decide⟩
      by_contra oneLine
      simp [List.splitOn_eq_singleton oneLine] at isSplit
    rw [misleads, broken, Bool.true_and, Bool.not_eq_true', filesOf_listing_of_lines isSplit]

theorem restart_finds_default_log :
    openedIn { appendonly := true } ∅ [[typed ["SET", "a", "1"]], []] =
      .ok ["appendonly.aof.1.incr.aof", "appendonly.aof.1.incr.aof"] :=
  ((restart_finds_log_iff { appendonly := true } rfl).1.mpr (by decide +kernel)).1 _

/-- Under the name `a b c` the first start opens `a b c.1.incr.aof` and the second `a`. -/
theorem restart_misled :
    openedIn { appendonly := true, appendfilename := "a b c" } ∅ [[], []] =
      .ok ["a b c.1.incr.aof", "a"] := by
  decide +kernel

/-! ## What is played back -/

/-- The commands a file of a directory holds. -/
def commandsIn (directory : Directory) (name : String) : List Value :=
  match recorded (directory[name]?.getD []) with
  | .ok commands => commands
  | .error _ => []

/-- Coming up plays back every file of commands the manifest lists, one after another, and
goes on at the end of the last. -/
def PlaysBackAll (config : Config) (directory : Directory) (names : List String) : Prop :=
  ∃ last next, names.getLast? = some last ∧
    start config directory = .ok (some (last, next, names.flatMap (commandsIn directory))) ∧
    ∀ command : Value, (record last next command)[last]? =
      some (directory[last]?.getD [] ++ command.encode)

/-- Every file but the last must hold nothing for all of them to be played back. -/
theorem playsBackAll_iff (config : Config) (directory : Directory) (bytes : Bytes)
    (content : String) (appendonly : config.appendonly)
    (held : directory[manifest config]? = some bytes) (isText : text bytes = some content)
    (some_listed : filesOf content ≠ [])
    (readable : ∀ name ∈ filesOf content, ∃ log commands, directory[name]? = some log ∧
      recorded log = .ok commands) :
    PlaysBackAll config directory (filesOf content) ↔
      ∀ name ∈ (filesOf content).dropLast, commandsIn directory name = [] := by
  have isLast := List.getLast?_eq_some_getLast some_listed
  have split := List.dropLast_append_getLast some_listed
  obtain ⟨log, commands, isLog, isRead⟩ := readable _ (List.getLast_mem some_listed)
  have found : recordedIn directory (manifest config) =
      .ok (some ((filesOf content).getLast some_listed)) := by
    rw [recordedIn_eq held isText, isLast]
  have started := start_listed appendonly found isLog
  rw [isRead] at started
  have ofLast : commandsIn directory ((filesOf content).getLast some_listed) = commands := by
    rw [commandsIn, isLog, Option.getD_some, isRead]
  generalize (filesOf content).getLast some_listed = last at *
  have all : (filesOf content).flatMap (commandsIn directory) =
      (filesOf content).dropLast.flatMap (commandsIn directory) ++ commands := by
    conv_lhs => rw [← split, List.flatMap_append, List.flatMap_singleton, ofLast]
  rw [PlaysBackAll, all, ← List.flatMap_eq_nil_iff]
  constructor
  · rintro ⟨other, next, isOther, played, -⟩
    rw [started] at played
    simp only [Except.ok.injEq, Option.some.injEq, Prod.mk.injEq] at played
    exact List.self_eq_append_left.mp played.2.2
  · intro nothing
    rw [nothing, List.nil_append]
    refine ⟨last, _, isLast, started, fun command => ?_⟩
    simp [record, isLog]

/-- A manifest that lists two files of commands after one that holds a dataset. -/
def listingOfTwo : String :=
  "file base.rdb seq 1 type b\nfile a seq 1 type i\nfile b seq 2 type i\n"

theorem filesOf_listingOfTwo : filesOf listingOfTwo = ["a", "b"] := by decide +kernel

def directoryOfTwo (first second : Bytes) : Directory :=
  (((∅ : Directory).insert "appendonly.aof.manifest" (utf8 listingOfTwo)).insert "a" first).insert
    "b" second

theorem playsBackAll_empty :
    PlaysBackAll { appendonly := true } (directoryOfTwo [] (typed ["SET", "k", "v"]).encode)
      (filesOf listingOfTwo) := by
  refine (playsBackAll_iff { appendonly := true } _ _ listingOfTwo rfl rfl (text_utf8 _)
    ?_ ?_).mpr ?_
  · simp [filesOf_listingOfTwo]
  · rw [filesOf_listingOfTwo]
    refine List.forall_mem_cons.mpr ⟨⟨[], [], rfl, rfl⟩, ?_⟩
    exact List.forall_mem_singleton.mpr ⟨_, [typed ["SET", "k", "v"]], rfl, rfl⟩
  · rw [filesOf_listingOfTwo]
    exact List.forall_mem_singleton.mpr rfl

/-- Of two files that hold one command each, the second is played back and the first is
not. -/
theorem first_file_left_out :
    (start { appendonly := true }
        (directoryOfTwo (typed ["SET", "a", "1"]).encode (typed ["SET", "k", "v"]).encode)).map
        (Option.map fun started => started.2.2) = .ok (some [typed ["SET", "k", "v"]]) ∧
      (filesOf listingOfTwo).flatMap (commandsIn
          (directoryOfTwo (typed ["SET", "a", "1"]).encode (typed ["SET", "k", "v"]).encode)) =
        [typed ["SET", "a", "1"], typed ["SET", "k", "v"]] := by
  rw [filesOf_listingOfTwo]
  exact ⟨rfl, rfl⟩

end RedisServer.Aof
