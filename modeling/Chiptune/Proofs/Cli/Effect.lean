import Chiptune.Cli.Run
import Chiptune.Proofs.Directory
import Chiptune.Proofs.Song.Loading
import Chiptune.Proofs.Song.Shape

/-!
# What the command does

The command has five switches, two kinds of input and a file to write. `runOptions_effect` tells for
all of them what is left behind: the exit code, the standard output and the files. Nothing is printed
or written before the whole song has compiled, so a song that fails leaves no trace, not even where
the output file is the input file.

A song that compiled can always be summarized and has an image, so the only thing that can still go
wrong is the path of the output file. Whether a song comes from a file or from the standard input
makes no difference beyond the wording of a fault.

The files are those of one directory, with none below it. An absolute path, a path through `..` and a
path into a subdirectory lead to none of them, whether they are read or written.
-/

namespace Chiptune.Cli

/-- What becomes of a song that compiled and is not only checked. -/
structure Outcome.Delivers (outcome : Outcome) (options : Options) (files : Directory)
    (song : Song) : Prop where
  summarized : options.json = true → ∃ summary, song.summary? options.bytes = some summary ∧
    outcome.stdout = utf8 (summary.toJson.render .indented ++ "\n")
  printed : options.json = false → options.output = none → song.toImage = .ok outcome.stdout
  silent : options.json = false → options.output ≠ none → outcome.stdout = []
  unwritten : options.output = none → outcome.exitCode = 0 ∧ outcome.files = files
  written : ∀ path name, options.output = some path → files.nameToWrite path = .ok name →
    outcome.exitCode = 0 ∧
    (∃ image, song.toImage = .ok image ∧ outcome.files.lookUp path = .ok (.file image) ∧
      outcome.files.find? name = some image) ∧
    ∀ other, other ≠ name → outcome.files.find? other = files.find? other
  refused : ∀ path fault, options.output = some path → files.nameToWrite path = .error fault →
    outcome.exitCode = 1 ∧ outcome.files = files

/-- What a command leaves behind, told by what came of compiling its input. -/
structure Outcome.Follows (outcome : Outcome) (options : Options) (files : Directory)
    (compiled : Except Error Song) : Prop where
  failed : ∀ fault, compiled = .error fault →
    outcome.exitCode = 1 ∧ outcome.stdout = [] ∧ outcome.files = files
  checked : ∀ song, compiled = .ok song → options.check = true →
    outcome.exitCode = 0 ∧ outcome.stdout = [] ∧ outcome.files = files
  delivered : ∀ song, compiled = .ok song → options.check = false →
    outcome.Delivers options files song

/-- Two outcomes, each in a directory of its own, that differ in the wording of a fault at most: if a
file was written, the same one in both directories. -/
structure SameEffect (files files' : Directory) (outcome outcome' : Outcome) : Prop where
  exitCode_eq : outcome.exitCode = outcome'.exitCode
  stdout_eq : outcome.stdout = outcome'.stdout
  written_eq : ∃ written : Option (String × List UInt8),
    outcome.files = written.elim files (fun file => files.write file.1 file.2) ∧
    outcome'.files = written.elim files' (fun file => files'.write file.1 file.2)

/-! ### Replies -/

section

variable {options : Options} {files : Directory} {stdin : List UInt8} {song : Song}

theorem exists_fits_of_compileInput (hcompile : compileInput options files stdin = .ok song) :
    ∃ score : Score, score.Fits ∧ score.toSong = song := by
  unfold compileInput at hcompile
  split at hcompile
  · obtain ⟨text, htext⟩ := Song.exists_text_of_compileFile? (Song.loadFile_eq_iff.1 hcompile)
    exact Song.exists_fits_of_compile htext
  · obtain ⟨text, htext⟩ := Song.exists_text_of_compileFeed? (Song.loadFeed_eq_iff.1 hcompile)
    exact Song.exists_fits_of_compile htext

theorem reply_of_check (hcheck : options.check = true) : reply options song = .ok ⟨[], none⟩ := by
  rw [reply, if_pos hcheck]
  rfl

/-- The reply to a song with the given image. -/
def replyOf (options : Options) (song : Song) (image : List UInt8) : Reply where
  stdout :=
    if options.json then utf8 (summaryText song options.bytes)
    else if options.output.isSome then [] else image
  file := options.output.map fun path => (path, image)

theorem reply_of_image {image : List UInt8} (hcheck : options.check = false)
    (himage : song.toImage = .ok image) :
    reply options song = .ok (replyOf options song image) := by
  unfold reply replyOf
  cases options.output <;> cases options.json <;>
    simp [hcheck, himage, bind, Except.bind, pure, Except.pure]

@[simp] theorem stdout_deliver (files : Directory) (answer : Reply) :
    (deliver files answer).stdout = answer.stdout := by
  unfold deliver
  split
  · rfl
  · split <;> rfl

theorem runOptions_of_error {fault : Error} (hlist : options.listMnemonics = false)
    (hcompile : compileInput options files stdin = .error fault) :
    runOptions options files stdin = ⟨1, [], files, some (faultLine fault.diagnostic)⟩ := by
  simp [runOptions, hlist, hcompile, Except.bind]

theorem runOptions_of_reply {answer : Reply} (hlist : options.listMnemonics = false)
    (hcompile : compileInput options files stdin = .ok song)
    (hreply : reply options song = .ok answer) :
    runOptions options files stdin = deliver files answer := by
  simp [runOptions, hlist, hcompile, Except.bind, hreply]

theorem delivers_of_image {image : List UInt8} {summary : Summary}
    (himage : song.toImage = .ok image) (hsummary : song.summary? options.bytes = some summary) :
    (deliver files (replyOf options song image)).Delivers options files song where
  summarized := by
    intro hjson
    refine ⟨summary, hsummary, ?_⟩
    simp [replyOf, hjson, summaryText, hsummary]
  printed := by
    intro hjson houtput
    simp [replyOf, hjson, houtput, himage]
  silent := by
    intro hjson houtput
    simp [replyOf, hjson, Option.isSome_iff_ne_none.2 houtput]
  unwritten := by
    intro houtput
    simp only [deliver, replyOf, houtput, Option.map_none]
    exact ⟨trivial, trivial⟩
  written := by
    intro path name houtput hname
    simp only [deliver, replyOf, houtput, Option.map_some, hname]
    exact ⟨trivial, ⟨image, himage, Directory.lookUp_write hname image,
      Directory.find?_write_self files name image⟩,
      fun other hne => Directory.find?_write_of_ne files hne image⟩
  refused := by
    intro path fault houtput hname
    simp only [deliver, replyOf, houtput, Option.map_some, hname]
    exact ⟨trivial, trivial⟩

theorem follows_runOptions (hlist : options.listMnemonics = false) :
    (runOptions options files stdin).Follows options files (compileInput options files stdin) where
  failed := by
    intro fault hcompile
    rw [runOptions_of_error hlist hcompile]
    exact ⟨rfl, rfl, rfl⟩
  checked := by
    intro song hcompile hcheck
    rw [runOptions_of_reply hlist hcompile (reply_of_check hcheck)]
    exact ⟨rfl, rfl, rfl⟩
  delivered := by
    intro song hcompile hcheck
    obtain ⟨score, hfits, rfl⟩ := exists_fits_of_compileInput hcompile
    obtain ⟨image, himage, -⟩ := Score.toImage_toSong hfits
    obtain ⟨summary, hsummary⟩ := Score.exists_summary hfits options.bytes
    rw [runOptions_of_reply hlist hcompile (reply_of_image hcheck himage)]
    exact delivers_of_image himage hsummary

/-! ### One song, two inputs -/

theorem exists_reply (hcompile : compileInput options files stdin = .ok song) :
    ∃ answer, reply options song = .ok answer := by
  cases hcheck : options.check with
  | true => exact ⟨_, reply_of_check hcheck⟩
  | false =>
    obtain ⟨score, hfits, rfl⟩ := exists_fits_of_compileInput hcompile
    obtain ⟨image, himage, -⟩ := Score.toImage_toSong hfits
    exact ⟨_, reply_of_image hcheck himage⟩

/-- Whether a reply can be delivered depends on its path, not on the files that are there. -/
theorem sameEffect_deliver (files files' : Directory) (answer : Reply) :
    SameEffect files files' (deliver files answer) (deliver files' answer) := by
  unfold deliver
  cases answer.file with
  | none => exact ⟨rfl, rfl, none, rfl, rfl⟩
  | some output =>
    obtain ⟨path, image⟩ := output
    cases hname : files.nameToWrite path with
    | ok name =>
      simp only [hname, Directory.nameToWrite_of_ok files' hname]
      exact ⟨rfl, rfl, some (name, image), rfl, rfl⟩
    | error fault =>
      cases hname' : files'.nameToWrite path with
      | ok name =>
        -- A path that can be written to in one directory can be in the other.
        rw [Directory.nameToWrite_of_ok files hname'] at hname
        cases hname
      | error fault' =>
        simp only [hname, hname']
        exact ⟨rfl, rfl, none, rfl, rfl⟩

/-- Commands that differ in their input alone have the same effect if the inputs hold the same song or
none. -/
theorem sameEffect_runOptions {options' : Options} {files' : Directory} {stdin' : List UInt8}
    (hlist : options'.listMnemonics = options.listMnemonics) (hreply : reply options' = reply options)
    (hcompiled : (∃ song, compileInput options files stdin = .ok song ∧
        compileInput options' files' stdin' = .ok song) ∨
      ∃ fault fault', compileInput options files stdin = .error fault ∧
        compileInput options' files' stdin' = .error fault') :
    SameEffect files files' (runOptions options files stdin) (runOptions options' files' stdin') := by
  cases hlisted : options.listMnemonics with
  | true =>
    rw [runOptions, if_pos hlisted, runOptions, if_pos (hlist.trans hlisted)]
    exact ⟨rfl, rfl, none, rfl, rfl⟩
  | false =>
    have hlisted' := hlist.trans hlisted
    obtain ⟨song, hcompile, hcompile'⟩ | ⟨fault, fault', hcompile, hcompile'⟩ := hcompiled
    · obtain ⟨answer, hanswer⟩ := exists_reply hcompile
      rw [runOptions_of_reply hlisted hcompile hanswer,
        runOptions_of_reply hlisted' hcompile' (hreply ▸ hanswer)]
      exact sameEffect_deliver files files' answer
    · rw [runOptions_of_error hlisted hcompile, runOptions_of_error hlisted' hcompile']
      exact ⟨rfl, rfl, none, rfl, rfl⟩

end

/-- The effect of the command on the files of one flat directory. Listing the mnemonics looks at no
input and touches no file. Otherwise all depends on what comes of compiling the input, and it does
not matter whether the same bytes come from a file or from the standard input. -/
theorem runOptions_effect (options : Options) (files : Directory) (stdin : List UInt8) :
    (options.listMnemonics = true →
      runOptions options files stdin = ⟨0, utf8 mnemonicList, files, none⟩) ∧
    (options.listMnemonics = false →
      (runOptions options files stdin).Follows options files (compileInput options files stdin)) ∧
    ∀ (path : String) (bytes : List UInt8) (files' : Directory),
      files.lookUp path = .ok (.file bytes) →
      SameEffect files files' (runOptions { options with input := some path } files stdin)
        (runOptions { options with input := none } files' bytes) := by
  refine ⟨?_, follows_runOptions, ?_⟩
  · intro hlist
    rw [runOptions, if_pos hlist]
  · intro path bytes files' hfile
    exact sameEffect_runOptions rfl rfl (Song.loadFile_cases hfile)

/-- A directory with a song of one note, and another file. -/
def songFiles (note : String) : Directory :=
  ⟨[("song.atm", utf8 ("ATM1 ENTRY 1 2 3 4 TRACK NOTE " ++ note ++ " ENDTRACK END")),
    ("list.txt", [65, 10])]⟩

/-- The output is the input under another path. -/
def overwriting : Options := { input := some "song.atm", output := some "./song.atm" }

/-- A titled song of two tracks, the second of which is empty. -/
def duoText : String :=
  "ATM1 NAME Duo\nENTRY 1 2 3 4 TRACK NOTE 7 ENDTRACK TRACK ENDTRACK END"

def duoSong : Song := ⟨some "Duo", #v[1, 2, 3, 4], [0, 1], [7]⟩

/-- The summary of that song as it is printed. The empty track has no bytes to list. -/
def duoSummary : String :=
  "\x7b\n  \"name\": \"Duo\",\n" ++
  "  \"entry\": [\n    1,\n    2,\n    3,\n    4\n  ],\n" ++
  "  \"track_offsets\": [\n    0,\n    1\n  ],\n" ++
  "  \"data_len\": 1,\n  \"image_len\": 10,\n  \"tracks\": [\n" ++
  "    \x7b\n      \"index\": 0,\n      \"offset\": 0,\n      \"len\": 1,\n" ++
  "      \"bytes\": [\n        7\n      ]\n    \x7d,\n" ++
  "    \x7b\n      \"index\": 1,\n      \"offset\": 1,\n      \"len\": 0\n    \x7d\n" ++
  "  ]\n\x7d\n"

def summarizing : Options := { json := true, bytes := true }

/-- The song is overwritten by its image if it compiles, and kept if it does not; and the bytes of
the song on the standard input do the same. A summary is printed and no file is touched. -/
theorem runOptions_effect_overwriting :
    (runOptions overwriting (songFiles "7") []).exitCode = 0 ∧
    (runOptions overwriting (songFiles "7") []).files.find? "song.atm" =
      some [1, 0, 0, 1, 2, 3, 4, 7] ∧
    (runOptions overwriting (songFiles "7") []).files.find? "list.txt" = some [65, 10] ∧
    (runOptions overwriting (songFiles "64") []).exitCode = 1 ∧
    (runOptions overwriting (songFiles "64") []).files = songFiles "64" ∧
    (runOptions { overwriting with input := none } (songFiles "64")
      (utf8 "ATM1 ENTRY 1 2 3 4 TRACK NOTE 7 ENDTRACK END")).exitCode = 0 ∧
    (runOptions summarizing (songFiles "64") (utf8 duoText)).stdout = utf8 duoSummary ∧
    (runOptions summarizing (songFiles "64") (utf8 duoText)).files = songFiles "64" := by
  have hcompile : compileInput overwriting (songFiles "7") [] =
      .ok ⟨none, #v[1, 2, 3, 4], [0], [7]⟩ := by decide +kernel
  have hfault : compileInput overwriting (songFiles "64") [] = .error (.range (.note 64)) := by
    decide +kernel
  have hname : (songFiles "7").nameToWrite "./song.atm" = .ok "song.atm" := by decide +kernel
  have hfile : (songFiles "7").lookUp "song.atm" =
      .ok (.file (utf8 "ATM1 ENTRY 1 2 3 4 TRACK NOTE 7 ENDTRACK END")) := by decide +kernel
  obtain ⟨-, hfollows, hsame⟩ := runOptions_effect overwriting (songFiles "7") []
  obtain ⟨-, hfollows', -⟩ := runOptions_effect overwriting (songFiles "64") []
  obtain ⟨hexit, ⟨image, himage, -, hfound⟩, hother⟩ :=
    ((hfollows rfl).delivered _ hcompile rfl).written _ _ rfl hname
  obtain ⟨hexit', -, hkept⟩ := (hfollows' rfl).failed _ hfault
  cases himage
  have hagree := (hsame "song.atm" _ (songFiles "64") hfile).exitCode_eq
  -- The song on the standard input, summarized.
  have hduo : compileInput summarizing (songFiles "64") (utf8 duoText) = .ok duoSong := by
    decide +kernel
  have hprinted : (duoSong.summary? summarizing.bytes).map (fun summary =>
      summary.toJson.render .indented ++ "\n") = some duoSummary := by decide +kernel
  obtain ⟨-, hfollows'', -⟩ := runOptions_effect summarizing (songFiles "64") (utf8 duoText)
  have hdelivers := (hfollows'' rfl).delivered _ hduo rfl
  obtain ⟨summary, hsummary, hstdout⟩ := hdelivers.summarized rfl
  rw [hsummary, Option.map_some, Option.some_inj] at hprinted
  rw [hprinted] at hstdout
  exact ⟨hexit, hfound, hother "list.txt" (by decide), hexit', hkept, hagree.symm.trans hexit,
    hstdout, (hdelivers.unwritten rfl).2⟩

end Chiptune.Cli
