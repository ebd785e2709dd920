/-! The texts that describe the command line. -/
namespace ClassShape

def usageText : String :=
"error: invalid arguments

Usage: class-differ [OPTIONS] --reference <REFERENCE>... --candidate <CANDIDATE>...

For more information, try '--help'."

def helpText : String :=
"Compare class structure between a reference and a candidate.

Each side is any mix of source files and directories. Classes are pooled by name per side; members are compared by modifier and types only.

Usage: class-differ [OPTIONS] --reference <REFERENCE>... --candidate <CANDIDATE>...

Options:
  -r, --reference <REFERENCE>...
          Reference files or directories (the expected schema)

  -c, --candidate <CANDIDATE>...
          Candidate files or directories (graded against the reference)

      --config <CONFIG>
          TOML configuration file

      --reference-label <REFERENCE_LABEL>
          Name used for the reference side in messages

      --candidate-label <CANDIDATE_LABEL>
          Name used for the candidate side in messages

  -f, --format <FORMAT>
          Output format

          [default: text]
          [possible values: text, json]

  -o, --output <OUTPUT>
          Write the report to a file instead of stdout

      --max-files <MAX_FILES>
          Maximum number of files per side

      --threads <THREADS>
          Number of parsing threads

      --no-progress
          Hide the progress bar

  -v, --verbose...
          Increase log verbosity (-v info, -vv debug)

  -h, --help
          Print help (see a summary with '-h')

  -V, --version
          Print version
"

end ClassShape
