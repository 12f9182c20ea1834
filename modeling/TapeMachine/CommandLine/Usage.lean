import TapeMachine.CommandLine.Grammar

/-!
The switches of the three programs that read a command line, with the texts
that explain them.
-/

namespace TapeMachine.CommandLine

/-- A program as its users call it. -/
structure Synopsis where
  name : String
  grammar : List Switch
  usage : String
  help : String

namespace Synopsis

def helpSwitch : Switch :=
  { key := .help, names := ["-h", "--help"], takes := .nothing }

def inputSwitch : Switch :=
  { key := .input, names := ["--input"], takes := .text }

def tapeSizeSwitch : Switch :=
  { key := .tapeSize, names := ["--tape-size"], takes := .integer }

def verboseSwitch : Switch :=
  { key := .verbose, names := ["-v", "--verbose"], takes := .nothing }

def run : Synopsis :=
  { name := "bf-run"
    grammar :=
      [helpSwitch,
        { inputSwitch with rival := some .inputFile },
        { key := .inputFile, names := ["--input-file"], takes := .text, rival := some .input },
        tapeSizeSwitch,
        { key := .maxSteps, names := ["--max-steps"], takes := .integer },
        { key := .strict, names := ["--strict"], takes := .nothing },
        { key := .trace, names := ["--trace"], takes := .nothing },
        verboseSwitch]
    usage :=
      "usage: bf-run [-h] [--input INPUT | --input-file INPUT_FILE]\n" ++
      "              [--tape-size TAPE_SIZE] [--max-steps MAX_STEPS] [--strict]\n" ++
      "              [--trace] [-v]\n" ++
      "              file\n"
    help :=
      "\n" ++
      "Run a tape-machine program to completion.\n" ++
      "\n" ++
      "positional arguments:\n" ++
      "  file                  program source\n" ++
      "\n" ++
      "options:\n" ++
      "  -h, --help            show this help message and exit\n" ++
      "  --input INPUT         text fed to ',' reads\n" ++
      "  --input-file INPUT_FILE\n" ++
      "                        read input text from a file\n" ++
      "  --tape-size TAPE_SIZE\n" ++
      "  --max-steps MAX_STEPS\n" ++
      "                        give up after this many instructions\n" ++
      "  --strict              refuse programs with unmatched brackets\n" ++
      "  --trace               print every executed instruction to stderr\n" ++
      "  -v, --verbose\n" }

def debug : Synopsis :=
  { name := "bf-debug"
    grammar := [helpSwitch, inputSwitch, tapeSizeSwitch, verboseSwitch]
    usage := "usage: bf-debug [-h] [--input INPUT] [--tape-size TAPE_SIZE] [-v] file\n"
    help :=
      "\n" ++
      "Step through a tape-machine program.\n" ++
      "\n" ++
      "positional arguments:\n" ++
      "  file\n" ++
      "\n" ++
      "options:\n" ++
      "  -h, --help            show this help message and exit\n" ++
      "  --input INPUT         text fed to ',' reads\n" ++
      "  --tape-size TAPE_SIZE\n" ++
      "  -v, --verbose\n" }

def serve : Synopsis :=
  { name := "bf-serve"
    grammar :=
      [helpSwitch,
        { key := .port, names := ["--port"], takes := .integer },
        inputSwitch,
        tapeSizeSwitch,
        verboseSwitch]
    usage :=
      "usage: bf-serve [-h] [--port PORT] [--input INPUT] [--tape-size TAPE_SIZE]\n" ++
      "                [-v]\n" ++
      "                file\n"
    help :=
      "\n" ++
      "Serve a tape machine over HTTP.\n" ++
      "\n" ++
      "positional arguments:\n" ++
      "  file\n" ++
      "\n" ++
      "options:\n" ++
      "  -h, --help            show this help message and exit\n" ++
      "  --port PORT\n" ++
      "  --input INPUT\n" ++
      "  --tape-size TAPE_SIZE\n" ++
      "  -v, --verbose\n" }

end Synopsis

end TapeMachine.CommandLine
