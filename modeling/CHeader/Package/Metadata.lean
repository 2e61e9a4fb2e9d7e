import CHeader.Fault
import CHeader.Text.Trim

/-
  What is told of the package: its name, version and purpose,
  the names it offers, and the list of files it ships.

  The options of the command line are read first, and each
  one that asks for something is answered in its order.

  Key definitions include:
    * `Package.Metadata`
    * `Package.answerTo`
    * `Package.run`
-/

namespace CHeader

namespace Package

-- Metadata

structure Metadata where
  name : String
  version : String
  author : String
  url : String
  license : String
  description : String
  longDescription : String
  classifiers : List String
  keywords : String
  offers : List String
  deriving Inhabited, Repr

def metadata : Metadata :=
  { name := "cinterface",
    version := "0.0.1",
    author := "Nic Case",
    url := "https://github.com/necase/cinterface",
    license := "BSD",
    description := "Simple to use interfacing with C libraries",
    longDescription := "This package enables using a C library by specifying " ++
        "only the\nheader name and the library file name.",
    classifiers := ["Development Status :: 3 - Alpha",
       "Intended Audience :: Developers", "License :: OSI Approved :: BSD License",
       "Programming Language :: Python :: 2", "Programming Language :: Python :: 3",
       "Topic :: Software Development :: Libraries :: " ++ "Python Modules"],
    keywords := "ctypes python c interface",
    offers := ["include", "close", "save", "load", "CFunctionPointer",
       "calculate", "pointer", "getType", "LoadLibrary", "cast"] }

def Metadata.hasOffer (data : Metadata) (name : String) : Bool :=
  data.offers.contains name

-- Questions

/- What stands for a text that is not given. -/
def notGiven : String := "None"

/- The lines that answer a question, or the failure of one that has no answer. -/
def answerTo (data : Metadata) (question : String) : Option (Except Fault (List String)) :=
  match question with
  | "name" => some (.ok [data.name])
  | "version" => some (.ok [data.version])
  | "fullname" => some (.ok [data.name ++ "-" ++ data.version])
  | "author" | "contact" => some (.ok [data.author])
  | "url" => some (.ok [data.url])
  | "license" | "licence" => some (.ok [data.license])
  | "description" => some (.ok [data.description])
  | "long-description" => some (.ok [data.longDescription])
  | "classifiers" =>
      some (.ok [Text.joinWith "\n" data.classifiers])
  | "keywords" => some (.ok [data.keywords])
  | "author-email" | "maintainer" | "maintainer-email"
  | "contact-email" => some (.ok [notGiven])
  | "provides" | "requires" | "obsoletes" => some (.ok [""])
  | "platforms" => some (.error .wrongKind)
  | _ => none

def questions : List String :=
  ["name", "version", "fullname", "author", "author-email",
   "maintainer", "maintainer-email", "contact", "contact-email", "url", "license", "licence",
   "description", "long-description", "platforms",
   "classifiers", "keywords", "provides", "requires", "obsoletes"]

def otherOptions : List String :=
  ["verbose", "quiet", "dry-run", "help", "no-user-cfg", "help-commands"]

def optionLetters : List (Char × String) :=
  [('v', "verbose"), ('q', "quiet"), ('n', "dry-run"), ('h', "help"), ('V', "version")]

-- Options

/- The option of a word: the word itself, or the only one that starts like it. -/
def optionOfWord (word : String) : Except String String :=
  let isGiven := word.toList.contains '='
  let name := String.ofList (word.toList.takeWhile (· ≠ '='))
  let known := questions ++ otherOptions
  let found : Except String String :=
    if known.contains name then .ok name
    else
      match known.filter (Text.hasStart · name) with
      | [option] => .ok option
      | [] => .error ("option --" ++ name ++ " not recognized")
      | _ =>
          .error ("option --" ++ name ++ " not a unique prefix")
  match found with
  | .error text => .error text
  | .ok option =>
      if isGiven then
        .error ("option --" ++ option ++
          " must not have an argument")
      else .ok option

/- The options of letters behind one dash. -/
def optionsOfLetters : List Char → Except String (List String)
| [] => .ok []
| letter :: rest => do
    match optionLetters.find? (fun entry => entry.1 = letter) with
    | some (_, option) =>
        return option :: (← optionsOfLetters rest)
    | none =>
        throw ("option -" ++ letter.toString ++ " not recognized")

/- The options of a command line and what comes after. -/
def readOptions : List String → Except String (List String × List String)
| [] => .ok ([], [])
| argument :: rest =>
    match argument.toList with
    | ['-', '-'] => .ok ([], rest)
    | '-' :: '-' :: word => do
        let option ← optionOfWord (String.ofList word)
        let (options, others) ← readOptions rest
        return (option :: options, others)
    | '-' :: letter :: letters => do
        let first ← optionsOfLetters (letter :: letters)
        let (options, others) ← readOptions rest
        return (first ++ options, others)
    | _ => .ok ([], argument :: rest)

-- The command line

def usage : String :=
  "usage: setup.py [global_opts] cmd1 [cmd1_opts] " ++ "[cmd2 [cmd2_opts] ...]\n" ++
  "   or: setup.py --help [cmd1 cmd2 ...]\n" ++
  "   or: setup.py --help-commands\n" ++
  "   or: setup.py cmd --help\n"

def refusal (reason : String) : Fault := .refused (usage ++ "\nerror: " ++ reason)

/- Print the answers to questions, up to the first that has none. -/
def printAnswers (data : Metadata) : List String → String × Except Fault Unit
| [] => ("", .ok ())
| question :: rest =>
    match answerTo data question with
    | none => printAnswers data rest
    | some (.error fault) => ("", .error fault)
    | some (.ok lines) =>
        let (text, result) := printAnswers data rest
        (Text.concat (lines.map (· ++ "\n")) ++ text, result)

/- The header of formats by width cannot be made: the widths are not kept in an order. -/
def formatHeader : Except Fault String := .error .missingPart

/- Install the data files: they go to the directory of the
  installed modules, and there is no step that copies them. -/
def installData (installedModules : String) : String × Except Fault Unit :=
  (installedModules, .error .missingPart)

def regenerateWord : String := "regenerate"

/- Run the command line in the directory of the package or
  elsewhere: what it prints and how it ends. -/
def run (isInPlace : Bool) (arguments : List String) : String × Except Fault Unit :=
  if arguments.head? = some regenerateWord then
    ("", formatHeader.map (fun _ => ()))
  else if !isInPlace then ("", .error .brokenRule)
  else
    match readOptions arguments with
    | .error reason => ("", .error (refusal reason))
    | .ok (options, others) =>
        if options.any (questions.contains ·) then
          printAnswers metadata options
        else
          match others with
          | [] =>
              ("", .error (refusal "no commands supplied"))
          | command :: _ =>
              ("", .error (refusal ("invalid command '" ++ command ++ "'")))

-- Files

def noFilesMessage : String := "WARNING: egg-info directory may exist in output\n"

/- The files that are shipped, without a list of files at the end, and what is printed meanwhile. -/
def shippedFiles (files : List String) : List String × String :=
  match files.getLast? with
  | none => (files, noFilesMessage)
  | some last =>
      if (Text.findSub? "egg-info".toList last.toList).isSome then
        (files.dropLast, "")
      else (files, "")

end Package

end CHeader
