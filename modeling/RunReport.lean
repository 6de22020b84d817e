import RunReport.Loader.Script
import RunReport.Main
import RunReport.Session.Direct
import RunReport.Session.Step
import RunReport.Proofs.Making
import RunReport.Proofs.Decoding
import RunReport.Proofs.Reading
import RunReport.Proofs.Searching
import RunReport.Proofs.Walking
import RunReport.Proofs.Waiting
import RunReport.Proofs.Announcing
import RunReport.Proofs.Serving
import RunReport.Proofs.Naming
import RunReport.Proofs.Facts
import RunReport.Proofs.Telling
import RunReport.Proofs.Runs
import RunReport.Proofs.Instances
import RunReport.Proofs.Refinement
import RunReport.Proofs.Fates
import RunReport.Proofs.Confluence
import RunReport.Proofs.Agenda
import RunReport.Proofs.Protocol
import RunReport.Proofs.Lineage
import RunReport.Proofs.Teardown
import RunReport.Proofs.Turns
import RunReport.Proofs.Addressing
import RunReport.Proofs.Layout
import RunReport.Proofs.Agreement
import RunReport.Proofs.Habits
import RunReport.Proofs.Promises
import RunReport.Proofs.Granting
import RunReport.Proofs.Resting
import RunReport.Proofs.Likeness
import RunReport.Proofs.Splitting
import RunReport.Proofs.Translation
import RunReport.Proofs.Rereading
import RunReport.Proofs.Versions
import RunReport.Proofs.Closing
import RunReport.Proofs.Requests
import RunReport.Proofs.Browsing
import RunReport.Proofs.Children
import RunReport.Proofs.Preloading
import RunReport.Proofs.Showing
import RunReport.Proofs.Circularity
import RunReport.Proofs.Directories
import RunReport.Proofs.Ending
import RunReport.Proofs.Embedding
import RunReport.Proofs.Inheriting
import RunReport.Proofs.Outlining
import RunReport.Proofs.Remaining
import RunReport.Proofs.Globbing
import RunReport.Proofs.Cutting
import RunReport.Proofs.Queries
import RunReport.Proofs.FullNames
import RunReport.Proofs.Descending
import RunReport.Proofs.Reaching
import RunReport.Proofs.Shares
import RunReport.Proofs.Traces
import RunReport.Proofs.KeywordPaths
import RunReport.Proofs.Viewing
import RunReport.Proofs.Filtering
import RunReport.Proofs.Pumping
import RunReport.Proofs.Readiness
import RunReport.Proofs.PlainTags
import RunReport.Proofs.Counting
import RunReport.Proofs.Scraping
import RunReport.Proofs.Preorder
import RunReport.Proofs.Gathering
import RunReport.Proofs.Items
import RunReport.Proofs.Headlines
import RunReport.Proofs.Outlines
import RunReport.Proofs.Links
import RunReport.Proofs.Offsets
import RunReport.Proofs.Extending
import RunReport.Proofs.Coloring
import RunReport.Proofs.PathGrammar
import RunReport.Proofs.Inflating
import RunReport.Proofs.Orphans
import RunReport.Proofs.Denoting
import RunReport.Proofs.Supplying
